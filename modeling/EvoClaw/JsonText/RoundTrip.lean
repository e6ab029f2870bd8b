import EvoClaw.JsonText.Syntax
import Mathlib.Data.List.Nodup
import Mathlib.Tactic.FinCases

namespace EvoClaw.JsonText

section Strings

theorem hexValue_digitChar : ∀ d < 16, hexValue (Nat.digitChar d) = some d := by
  decide

@[simp] theorem hexValue_hexDigit (n : Nat) : hexValue (hexDigit n) = some (n % 16) :=
  hexValue_digitChar (n % 16) (Nat.mod_lt n (by omega))

theorem codes_unicode (a b c d : Char) (rest : List Char) :
    codes ('\\' :: 'u' :: a :: b :: c :: d :: rest) =
      match hexValue a, hexValue b, hexValue c, hexValue d with
      | some a, some b, some c, some d =>
          (codes rest).map fun (more, rest) =>
            ((a * 0x1000 + b * 0x100 + c * 0x10 + d) :: more, rest)
      | _, _, _, _ => none :=
  rfl

theorem codes_unicodeEscape {n : Nat} (hn : n < 0x10000) (rest : List Char) :
    codes (unicodeEscape n ++ rest) =
      (codes rest).map fun (more, rest) => (n :: more, rest) := by
  have hsum : n / 0x1000 % 16 * 0x1000 + n / 0x100 % 16 * 0x100 + n / 0x10 % 16 * 0x10 +
      n % 16 = n := by omega
  simp [unicodeEscape, codes_unicode, hsum]

-- What a character is between the quotes, escapes resolved.
def codeUnits (c : Char) : List Nat :=
  if c.toNat < 0x10000 then [c.toNat] else [highSurrogate c, lowSurrogate c]

theorem toNat_valid (c : Char) :
    c.toNat < 0x110000 ∧ isHigh c.toNat = false ∧ isLow c.toNat = false := by
  have hvalid : c.toNat < 0xd800 ∨ 0xdfff < c.toNat ∧ c.toNat < 0x110000 := c.valid
  simp only [isHigh, isLow, decide_eq_false_iff_not]
  omega

theorem codes_plain {c : Char} (hquote : c ≠ '"') (hslash : c ≠ '\\') (hlow : 0x20 ≤ c.toNat)
    (rest : List Char) :
    codes (c :: rest) = (codes rest).map fun (more, rest) => (c.toNat :: more, rest) := by
  rw [codes]
  · rw [if_neg]
    rintro (h | h)
    · omega
    · exact hslash h
  all_goals
    intros
    first
    | exact hquote ‹_›
    | exact hslash ‹_›

-- The characters of the escapes that are a backslash and one character.
def shortEscapes : List Char := ['"', '\\', 'n', 'r', 't', 'f', 'b']

-- Every escape has one of four forms.
theorem escape_forms (c : Char) :
    (escape c = [c] ∧ c ≠ '"' ∧ c ≠ '\\' ∧ 0x20 ≤ c.toNat ∧ c.toNat ≤ 0x7e) ∨
    (∃ mark ∈ shortEscapes, escape c = ['\\', mark] ∧ unescape mark = some c.toNat) ∨
    (escape c = unicodeEscape c.toNat ∧ c.toNat < 0x10000) ∨
    (escape c = unicodeEscape (highSurrogate c) ++ unicodeEscape (lowSurrogate c) ∧
      0x10000 ≤ c.toNat) := by
  obtain ⟨text, htext⟩ : ∃ text, escape c = text := ⟨_, rfl⟩
  rw [htext]
  unfold escape at htext
  by_cases hquote : c = '"'
  · rw [if_pos hquote] at htext
    exact .inr (.inl ⟨'"', by decide, htext.symm, by rw [hquote]; rfl⟩)
  rw [if_neg hquote] at htext
  by_cases hslash : c = '\\'
  · rw [if_pos hslash] at htext
    exact .inr (.inl ⟨'\\', by decide, htext.symm, by rw [hslash]; rfl⟩)
  rw [if_neg hslash] at htext
  by_cases hn : c = '\n'
  · rw [if_pos hn] at htext
    exact .inr (.inl ⟨'n', by decide, htext.symm, by rw [hn]; rfl⟩)
  rw [if_neg hn] at htext
  by_cases hr : c = '\r'
  · rw [if_pos hr] at htext
    exact .inr (.inl ⟨'r', by decide, htext.symm, by rw [hr]; rfl⟩)
  rw [if_neg hr] at htext
  by_cases ht : c = '\t'
  · rw [if_pos ht] at htext
    exact .inr (.inl ⟨'t', by decide, htext.symm, by rw [ht]; rfl⟩)
  rw [if_neg ht] at htext
  by_cases hf : c.toNat = 0x0c
  · rw [if_pos hf] at htext
    exact .inr (.inl ⟨'f', by decide, htext.symm, by rw [hf]; rfl⟩)
  rw [if_neg hf] at htext
  by_cases hb : c.toNat = 0x08
  · rw [if_pos hb] at htext
    exact .inr (.inl ⟨'b', by decide, htext.symm, by rw [hb]; rfl⟩)
  rw [if_neg hb] at htext
  by_cases hplain : 0x20 ≤ c.toNat ∧ c.toNat ≤ 0x7e
  · rw [if_pos hplain] at htext
    exact .inl ⟨htext.symm, hquote, hslash, hplain⟩
  rw [if_neg hplain] at htext
  by_cases hbmp : c.toNat < 0x10000
  · rw [if_pos hbmp] at htext
    exact .inr (.inr (.inl ⟨htext.symm, hbmp⟩))
  rw [if_neg hbmp] at htext
  exact .inr (.inr (.inr ⟨htext.symm, Nat.le_of_not_lt hbmp⟩))

theorem codes_short {mark : Char} {code : Nat} (h : unescape mark = some code)
    (rest : List Char) :
    codes ('\\' :: mark :: rest) = (codes rest).map fun (more, rest) => (code :: more, rest) := by
  rw [codes, h]
  rintro a b c d more rfl
  cases h

theorem short_lt {mark : Char} {code : Nat} (hmark : mark ∈ shortEscapes)
    (h : unescape mark = some code) : code < 0x10000 := by
  fin_cases hmark <;> cases h <;> decide

theorem codes_escape (c : Char) (rest : List Char) :
    codes (escape c ++ rest) =
      (codes rest).map fun (more, rest) => (codeUnits c ++ more, rest) := by
  have hbmp (h : c.toNat < 0x10000) : codeUnits c = [c.toNat] := if_pos h
  rcases escape_forms c with ⟨hc, hquote, hslash, hrange⟩ | ⟨mark, hmark, hc, hcode⟩ |
    ⟨hc, hlt⟩ | ⟨hc, hge⟩
  · rw [hc, hbmp (by omega)]
    exact codes_plain hquote hslash hrange.1 rest
  · rw [hc, hbmp (short_lt hmark hcode)]
    exact codes_short hcode rest
  · rw [hc, hbmp hlt]
    exact codes_unicodeEscape hlt rest
  · have hunits : codeUnits c = [highSurrogate c, lowSurrogate c] := if_neg (by omega)
    have hvalid := (toNat_valid c).1
    have hhigh : highSurrogate c < 0x10000 := by
      unfold highSurrogate
      omega
    have hlow : lowSurrogate c < 0x10000 := by
      unfold lowSurrogate
      omega
    rw [hc, hunits, List.append_assoc, codes_unicodeEscape hhigh, codes_unicodeEscape hlow]
    cases codes rest <;> rfl

theorem charOf_toNat (c : Char) : charOf c.toNat = c := by
  obtain ⟨_, hhigh, hlow⟩ := toNat_valid c
  simp [charOf, hhigh, hlow]

theorem joined_cons_of_not_high {code : Nat} (h : isHigh code = false) (more : List Nat) :
    joined (code :: more) = charOf code :: joined more := by
  cases more with
  | nil => rfl
  | cons low rest => simp [joined, h]

theorem joined_codeUnits (c : Char) (more : List Nat) :
    joined (codeUnits c ++ more) = c :: joined more := by
  obtain ⟨hmax, hhigh, _⟩ := toNat_valid c
  unfold codeUnits
  split_ifs with hbmp
  · rw [List.singleton_append, joined_cons_of_not_high hhigh, charOf_toNat]
  · have hpair : isHigh (highSurrogate c) = true ∧ isLow (lowSurrogate c) = true := by
      unfold isHigh isLow highSurrogate lowSurrogate
      exact ⟨decide_eq_true (by omega), decide_eq_true (by omega)⟩
    have hcode : 0x10000 + (highSurrogate c - 0xd800) * 0x400 + (lowSurrogate c - 0xdc00) =
        c.toNat := by
      unfold highSurrogate lowSurrogate
      omega
    simp [joined, hpair, hcode]

theorem codes_escapes (text rest : List Char) :
    codes (text.flatMap escape ++ '"' :: rest) = some (text.flatMap codeUnits, rest) := by
  induction text with
  | nil => rfl
  | cons c text ih => simp [codes_escape, ih]

theorem joined_flatMap_codeUnits (text : List Char) :
    joined (text.flatMap codeUnits) = text := by
  induction text with
  | nil => rfl
  | cons c text ih => rw [List.flatMap_cons, joined_codeUnits, ih]

theorem string_escapes (text : String) (rest : List Char) :
    string (text.toList.flatMap escape ++ '"' :: rest) = some (text, rest) := by
  simp [string, codes_escapes, joined_flatMap_codeUnits]

end Strings

section Numbers

-- What may follow a number inside an array or an object, or at the end.
def Delimited (rest : List Char) : Prop :=
  ∀ c ∈ rest.head?, c = ',' ∨ c = ']' ∨ c = '}'

theorem natOfDigits_append (text : List Char) (c : Char) :
    natOfDigits (text ++ [c]) = natOfDigits text * 10 + (c.toNat - '0'.toNat) := by
  simp [natOfDigits]

theorem natOfDigits_toDigits (n : Nat) : natOfDigits (Nat.toDigits 10 n) = n := by
  induction n using Nat.strongRecOn with
  | ind n ih =>
      by_cases hn : n < 10
      · rw [Nat.toDigits_of_lt_base hn]
        have hdigit := Nat.toNat_digitChar_sub_48_of_lt_ten hn
        simpa [natOfDigits] using hdigit
      · rw [Nat.toDigits_of_base_le (by omega) (by omega), natOfDigits_append,
          ih (n / 10) (by omega)]
        have hdigit := Nat.toNat_digitChar_sub_48_of_lt_ten (Nat.mod_lt n (show 0 < 10 by omega))
        have hzero : '0'.toNat = 48 := rfl
        omega

-- Only zero starts with a zero.
theorem toDigits_head {n : Nat} (hn : n ≠ 0) :
    ∃ c rest, Nat.toDigits 10 n = c :: rest ∧ c ≠ '0' := by
  induction n using Nat.strongRecOn with
  | ind n ih =>
      by_cases hlt : n < 10
      · rw [Nat.toDigits_of_lt_base hlt]
        exact ⟨_, [], rfl, by simpa using hn⟩
      · obtain ⟨c, rest, htext, hc⟩ := ih (n / 10) (by omega) (by omega)
        rw [Nat.toDigits_of_base_le (by omega) (by omega), htext]
        exact ⟨c, _, rfl, hc⟩

theorem digits_append {text rest : List Char} (htext : ∀ c ∈ text, c.isDigit = true)
    (hrest : Delimited rest) :
    (text ++ rest).takeWhile Char.isDigit = text := by
  rw [List.takeWhile_append_of_pos htext]
  cases rest with
  | nil => simp
  | cons c rest =>
      have hc : c.isDigit = false := by
        rcases hrest c rfl with rfl | rfl | rfl <;> rfl
      simp [hc]

theorem fraction_delimited {rest : List Char} (h : Delimited rest) :
    fraction rest = ([], rest) := by
  unfold fraction
  split
  · next rest => rcases h '.' rfl with h | h | h <;> cases h
  · rfl

theorem exponent_delimited {rest : List Char} (h : Delimited rest) :
    exponent rest = ([], rest) := by
  unfold exponent
  split
  · next e sign rest =>
      rw [if_pos]
      rcases h e rfl with rfl | rfl | rfl <;> decide
  · rfl

theorem wholeDigits_toDigits {n : Nat} {rest : List Char} (hrest : Delimited rest) :
    wholeDigits (Nat.toDigits 10 n ++ rest) = Nat.toDigits 10 n := by
  by_cases hn : n = 0
  · subst hn
    rfl
  · have hdigits : ∀ c ∈ Nat.toDigits 10 n, c.isDigit = true := fun c hc =>
      Nat.isDigit_of_mem_toDigits (by omega) (by omega) hc
    obtain ⟨c, more, htext, hc⟩ := toDigits_head hn
    rw [htext] at hdigits ⊢
    unfold wholeDigits
    split
    · next heq =>
        cases heq
        exact absurd rfl hc
    · exact digits_append hdigits hrest

theorem unsigned_toDigits (floatOf : List Char → BitVec 64) (negative : Bool) {n : Nat}
    {rest : List Char} (hlength : (Nat.toDigits 10 n).length ≤ maxStrDigits)
    (hrest : Delimited rest) :
    unsigned floatOf negative (Nat.toDigits 10 n ++ rest) =
      some (.int (if negative then -(n : Int) else n), rest) := by
  have hne : (Nat.toDigits 10 n).isEmpty = false := by simp
  unfold unsigned
  simp only [wholeDigits_toDigits hrest, List.drop_left, fraction_delimited hrest,
    exponent_delimited hrest, hne, natOfDigits_toDigits]
  rw [if_neg (by simp), if_pos ⟨rfl, rfl⟩, if_neg (Nat.not_lt.mpr hlength)]

theorem intText_inj {n n' : Int} (h : intText n = intText n') : n = n' := by
  have hdigit (k : Nat) (rest : List Char) : Nat.toDigits 10 k ≠ '-' :: rest := by
    intro heq
    have hmem : '-' ∈ Nat.toDigits 10 k := by simp [heq]
    cases Nat.isDigit_of_mem_toDigits (by omega) (by omega) hmem
  have hinj {k k' : Nat} (hk : Nat.toDigits 10 k = Nat.toDigits 10 k') : k = k' := by
    rw [← natOfDigits_toDigits k, hk, natOfDigits_toDigits]
  unfold intText at h
  split_ifs at h
  · have habs := hinj (List.cons.inj h).2
    omega
  · exact absurd h.symm (hdigit _ _)
  · exact absurd h (hdigit _ _)
  · have habs := hinj h
    omega

end Numbers

section Values

variable (floatText : BitVec 64 → List Char) (floatOf : List Char → BitVec 64)

-- A character that stands for itself everywhere, and ends or escapes nothing.
def Plain (c : Char) : Prop :=
  c ≠ '"' ∧ c ≠ '\\' ∧ c ≠ '_'

-- The text of the float is a number that is read back as the float.
structure FloatReads (bits : BitVec 64) : Prop where
  reads : ∀ fuel rest, Delimited rest →
    value floatOf (fuel + 1) (floatText bits ++ rest) = some (.float bits, rest)
  plain : ∀ c ∈ floatText bits, Plain c

mutual

-- A value that Python can write and read: floats that are read back, no int of too many
-- digits, and every dictionary has one value for a key.
def Readable : Json → Prop
  | .int value => (Nat.toDigits 10 value.natAbs).length ≤ maxStrDigits
  | .float bits => FloatReads floatText floatOf bits
  | .arr items => ReadableItems items
  | .obj fields => (fields.map Prod.fst).Nodup ∧ ReadableFields fields
  | .null => True
  | .bool _ => True
  | .str _ => True

def ReadableItems : List Json → Prop
  | [] => True
  | item :: items => Readable item ∧ ReadableItems items

def ReadableFields : List (String × Json) → Prop
  | [] => True
  | (_, value) :: fields => Readable value ∧ ReadableFields fields

end

theorem skip_cons {c : Char} {rest : List Char} (h : isBlank c = false) :
    skip (c :: rest) = c :: rest := by
  simp [skip, h]

theorem skip_blank {c : Char} {rest : List Char} (h : isBlank c = true) :
    skip (c :: rest) = skip rest := by
  simp [skip, h]

-- A text that begins a value, not whitespace and not a closing bracket.
def Opens (text : List Char) : Prop :=
  ∀ rest, skip (text ++ rest) = text ++ rest ∧
    (∀ more, text ++ rest ≠ ']' :: more) ∧ (∀ more, text ++ rest ≠ '}' :: more)

theorem opens_cons {c : Char} {text : List Char} (hblank : isBlank c = false)
    (hc : c ≠ ']' ∧ c ≠ '}') : Opens (c :: text) := by
  intro rest
  refine ⟨?_, ?_, ?_⟩
  · exact skip_cons hblank
  · rintro more heq
    cases heq
    exact hc.1 rfl
  · rintro more heq
    cases heq
    exact hc.2 rfl

theorem isDigit_opens {c : Char} {text : List Char} (h : c.isDigit = true) : Opens (c :: text) := by
  apply opens_cons
  · have hne : c ≠ ' ' ∧ c ≠ '\t' ∧ c ≠ '\n' ∧ c ≠ '\r' := by
      refine ⟨?_, ?_, ?_, ?_⟩ <;> rintro rfl <;> cases h
    simp [isBlank, hne]
  · constructor <;> rintro rfl <;> cases h

theorem toDigits_cons (n : Nat) :
    ∃ c rest, Nat.toDigits 10 n = c :: rest ∧ c.isDigit = true := by
  cases htext : Nat.toDigits 10 n with
  | nil => exact absurd htext Nat.toDigits_ne_nil
  | cons c rest =>
      have hmem : c ∈ Nat.toDigits 10 n := by simp [htext]
      exact ⟨c, rest, rfl, Nat.isDigit_of_mem_toDigits (by omega) (by omega) hmem⟩

-- No value begins with whitespace or a closing bracket.
theorem value_eq_none {fuel : Nat} {c : Char} {rest : List Char}
    (hc : c ∈ [' ', '\t', '\n', '\r', ']', '}']) :
    value floatOf (fuel + 1) (c :: rest) = none := by
  have hwhole : wholeDigits (c :: rest) = [] := by
    fin_cases hc <;> rfl
  have hunsigned : unsigned floatOf false (c :: rest) = none := by
    unfold unsigned
    rw [hwhole]
    rfl
  fin_cases hc <;> exact hunsigned

theorem FloatReads.opens {bits : BitVec 64} (h : FloatReads floatText floatOf bits) :
    Opens (floatText bits) := by
  have hvalue := h.reads 0 [] (by simp [Delimited])
  rw [List.append_nil] at hvalue
  cases htext : floatText bits with
  | nil =>
      rw [htext] at hvalue
      cases hvalue
  | cons c text =>
      rw [htext] at hvalue
      have hc : c ∉ [' ', '\t', '\n', '\r', ']', '}'] := by
        intro hmem
        rw [value_eq_none floatOf hmem] at hvalue
        cases hvalue
      simp only [List.mem_cons, List.not_mem_nil, or_false, not_or] at hc
      exact opens_cons (by simp [isBlank, hc]) ⟨hc.2.2.2.2.1, hc.2.2.2.2.2⟩

theorem opens_dumps {v : Json} (h : Readable floatText floatOf v) :
    Opens (dumps floatText v) := by
  cases v with
  | null => exact opens_cons rfl (by decide)
  | bool value => cases value <;> exact opens_cons rfl (by decide)
  | int value =>
      obtain ⟨c, rest, htext, hc⟩ := toDigits_cons value.natAbs
      unfold dumps intText
      split_ifs
      · exact opens_cons rfl (by decide)
      · rw [htext]
        exact isDigit_opens hc
  | float bits => exact FloatReads.opens floatText floatOf h
  | str text => exact opens_cons rfl (by decide)
  | arr items => cases items <;> exact opens_cons rfl (by decide)
  | obj fields =>
      cases fields with
      | nil => exact opens_cons rfl (by decide)
      | cons field fields => exact opens_cons rfl (by decide)

theorem mem_digits {c : Char} (h : c.isDigit = true) :
    c ∈ ['0', '1', '2', '3', '4', '5', '6', '7', '8', '9'] := by
  have hrange : 48 ≤ c.toNat ∧ c.toNat ≤ 57 := by
    simpa [Char.isDigit, Char.le_def, UInt32.le_iff_toNat_le] using h
  have hc := Char.ofNat_toNat c
  have hcases : c.toNat = 48 ∨ c.toNat = 49 ∨ c.toNat = 50 ∨ c.toNat = 51 ∨ c.toNat = 52 ∨
      c.toNat = 53 ∨ c.toNat = 54 ∨ c.toNat = 55 ∨ c.toNat = 56 ∨ c.toNat = 57 := by omega
  rcases hcases with h | h | h | h | h | h | h | h | h | h <;> rw [← hc, h] <;> decide

-- What each beginning makes of a value.
theorem value_quote (fuel : Nat) (text : List Char) :
    value floatOf (fuel + 1) ('"' :: text) =
      (string text).map fun (text, rest) => (.str text, rest) := rfl

theorem value_brace (fuel : Nat) (text : List Char) :
    value floatOf (fuel + 1) ('{' :: text) =
      match skip text with
      | '}' :: rest => some (.obj [], rest)
      | rest => (members floatOf fuel rest).map fun (pairs, rest) => (.obj (dict pairs), rest) :=
  rfl

theorem value_bracket (fuel : Nat) (text : List Char) :
    value floatOf (fuel + 1) ('[' :: text) =
      match skip text with
      | ']' :: rest => some (.arr [], rest)
      | rest => (elements floatOf fuel rest).map fun (items, rest) => (.arr items, rest) :=
  rfl

theorem value_unsigned (fuel : Nat) {c : Char} (rest : List Char) (h : c.isDigit = true) :
    value floatOf (fuel + 1) (c :: rest) = unsigned floatOf false (c :: rest) := by
  have hc := mem_digits h
  fin_cases hc <;> rfl

theorem value_minus (fuel : Nat) {c : Char} (rest : List Char) (h : c.isDigit = true) :
    value floatOf (fuel + 1) ('-' :: c :: rest) = unsigned floatOf true (c :: rest) := by
  have hc := mem_digits h
  fin_cases hc <;> rfl

theorem value_intText {fuel : Nat} {n : Int} {rest : List Char}
    (hlength : (Nat.toDigits 10 n.natAbs).length ≤ maxStrDigits) (hrest : Delimited rest) :
    value floatOf (fuel + 1) (intText n ++ rest) = some (.int n, rest) := by
  obtain ⟨c, more, htext, hc⟩ := toDigits_cons n.natAbs
  unfold intText
  split_ifs with hneg
  · have hminus := value_minus floatOf fuel (more ++ rest) hc
    rw [← List.cons_append, ← htext] at hminus
    rw [List.cons_append, hminus, unsigned_toDigits floatOf true hlength hrest, if_pos rfl]
    congr 3
    omega
  · have hunsigned := value_unsigned floatOf fuel (more ++ rest) hc
    rw [← List.cons_append, ← htext] at hunsigned
    rw [hunsigned, unsigned_toDigits floatOf false hlength hrest, if_neg (by simp)]
    congr 3
    omega

theorem assign_of_not_mem {fields : List (String × Json)} {key : String} {value : Json}
    (h : key ∉ fields.map Prod.fst) : assign fields key value = fields ++ [(key, value)] := by
  induction fields with
  | nil => rfl
  | cons field fields ih =>
      obtain ⟨other, held⟩ := field
      simp only [List.map_cons, List.mem_cons, not_or] at h
      simp [assign, Ne.symm h.1, ih h.2]

theorem foldl_assign {fields pairs : List (String × Json)}
    (h : (fields.map Prod.fst ++ pairs.map Prod.fst).Nodup) :
    pairs.foldl (fun fields pair => assign fields pair.1 pair.2) fields = fields ++ pairs := by
  induction pairs generalizing fields with
  | nil => simp
  | cons pair pairs ih =>
      have hnew : pair.1 ∉ fields.map Prod.fst := by
        intro hmem
        exact List.disjoint_of_nodup_append h hmem (by simp)
      rw [List.foldl_cons, assign_of_not_mem hnew, ih]
      · simp
      · simpa using h

theorem dict_of_nodup {pairs : List (String × Json)} (h : (pairs.map Prod.fst).Nodup) :
    dict pairs = pairs := by
  unfold dict
  rw [foldl_assign (by simpa using h), List.nil_append]

theorem delimited_items (items : List Json) (rest : List Char) :
    Delimited (dumpItems floatText items ++ rest) := by
  intro c hc
  cases items <;> cases hc <;> simp

theorem delimited_fields (fields : List (String × Json)) (rest : List Char) :
    Delimited (dumpFields floatText fields ++ rest) := by
  intro c hc
  cases fields <;> cases hc <;> simp

-- What the three parsers do with that much fuel.
structure Inverts (fuel : Nat) : Prop where
  value : ∀ v rest, Readable floatText floatOf v → (dumps floatText v).length ≤ fuel → Delimited rest →
    value floatOf fuel (dumps floatText v ++ rest) = some (v, rest)
  members : ∀ key v fields rest, Readable floatText floatOf v → ReadableFields floatText floatOf fields →
    (dumps floatText v ++ dumpFields floatText fields).length ≤ fuel →
    members floatOf fuel (quote key ++ ':' :: ' ' ::
      (dumps floatText v ++ (dumpFields floatText fields ++ rest))) =
      some ((key, v) :: fields, rest)
  elements : ∀ v items rest, Readable floatText floatOf v → ReadableItems floatText floatOf items →
    (dumps floatText v ++ dumpItems floatText items).length ≤ fuel →
    elements floatOf fuel (dumps floatText v ++ (dumpItems floatText items ++ rest)) =
      some (v :: items, rest)

variable {floatText floatOf}

theorem Inverts.zero : Inverts floatText floatOf 0 := by
  have hpos (v : Json) (h : Readable floatText floatOf v) : dumps floatText v ≠ [] := by
    intro hnil
    have hopens := (opens_dumps floatText floatOf h [']']).2.1 []
    simp [hnil] at hopens
  refine ⟨fun v rest hv hlen _ => ?_, fun key v fields rest hv _ hlen => ?_,
    fun v items rest hv _ hlen => ?_⟩
  · exact absurd (List.length_eq_zero_iff.mp (Nat.le_zero.mp hlen)) (hpos v hv)
  · rw [List.length_append] at hlen
    exact absurd (List.length_eq_zero_iff.mp (by omega)) (hpos v hv)
  · rw [List.length_append] at hlen
    exact absurd (List.length_eq_zero_iff.mp (by omega)) (hpos v hv)

theorem Inverts.value_succ {fuel : Nat} (h : Inverts floatText floatOf fuel) (v : Json)
    (rest : List Char) (hv : Readable floatText floatOf v)
    (hlen : (dumps floatText v).length ≤ fuel + 1) (hrest : Delimited rest) :
    JsonText.value floatOf (fuel + 1) (dumps floatText v ++ rest) = some (v, rest) := by
  cases v with
  | null => rfl
  | bool value => cases value <;> rfl
  | int value => exact value_intText floatOf hv hrest
  | float bits => exact hv.reads fuel rest hrest
  | str text =>
      simp only [dumps, quote, List.cons_append, List.append_assoc, List.nil_append,
        value_quote, string_escapes, Option.map_some]
  | arr items =>
      cases items with
      | nil => rfl
      | cons item items =>
          obtain ⟨hitem, hitems⟩ := by simpa [Readable, ReadableItems] using hv
          obtain ⟨hskip, hbracket, -⟩ := opens_dumps floatText floatOf hitem
            (dumpItems floatText items ++ rest)
          have helements := h.elements item items rest hitem hitems (by
            simp only [dumps, List.length_cons] at hlen
            omega)
          simp only [dumps, List.cons_append, List.append_assoc, value_bracket, hskip]
          rw [helements]
          rfl
  | obj fields =>
      cases fields with
      | nil => rfl
      | cons field fields =>
          obtain ⟨key, item⟩ := field
          simp only [Readable, ReadableFields] at hv
          obtain ⟨hkeys, hitem, hfields⟩ := hv
          have hmembers := h.members key item fields rest hitem hfields (by
            simp only [dumps, quote, List.length_cons, List.length_append] at hlen ⊢
            omega)
          have hquote (text : List Char) : skip ('"' :: text) = '"' :: text := skip_cons rfl
          simp only [dumps, quote, List.cons_append, List.append_assoc, List.nil_append,
            value_brace, hquote] at hmembers ⊢
          change Option.map _ (JsonText.members floatOf fuel _) = _
          rw [hmembers]
          exact congrArg (fun fields => some (Json.obj fields, rest)) (dict_of_nodup hkeys)

theorem Inverts.members_succ {fuel : Nat} (h : Inverts floatText floatOf fuel) (key : String)
    (v : Json) (fields : List (String × Json)) (rest : List Char)
    (hv : Readable floatText floatOf v)
    (hfields : ReadableFields floatText floatOf fields)
    (hlen : (dumps floatText v ++ dumpFields floatText fields).length ≤ fuel + 1) :
    JsonText.members floatOf (fuel + 1) (quote key ++ ':' :: ' ' ::
      (dumps floatText v ++ (dumpFields floatText fields ++ rest))) =
      some ((key, v) :: fields, rest) := by
  have hskip := (opens_dumps floatText floatOf hv (dumpFields floatText fields ++ rest)).1
  have hblank (text : List Char) : skip (' ' :: text) = skip text := skip_blank rfl
  have hcolon (text : List Char) : skip (':' :: text) = ':' :: text := skip_cons rfl
  have hcomma (text : List Char) : skip (',' :: text) = ',' :: text := skip_cons rfl
  have hquote (text : List Char) : skip ('"' :: text) = '"' :: text := skip_cons rfl
  have hclose : 1 ≤ (dumpFields floatText fields).length := by
    cases fields <;> simp [dumpFields]
  rw [List.length_append] at hlen
  have hvalue := h.value v (dumpFields floatText fields ++ rest) hv (by omega)
    (delimited_fields floatText fields rest)
  simp only [quote, List.cons_append, List.append_assoc, List.nil_append, JsonText.members,
    string_escapes, hcolon, hblank, hskip, hvalue]
  cases fields with
  | nil => rfl
  | cons field fields =>
      obtain ⟨other, item⟩ := field
      obtain ⟨hitem, hmore⟩ := hfields
      have hmembers := h.members other item fields rest hitem hmore (by
        simp only [dumpFields, quote, List.length_cons, List.length_append] at hlen ⊢
        omega)
      simp only [quote, List.cons_append, List.append_assoc, List.nil_append] at hmembers
      simp only [dumpFields, quote, List.cons_append, List.append_assoc, List.nil_append, hcomma,
        hblank, hquote, hmembers]
      rfl

theorem Inverts.elements_succ {fuel : Nat} (h : Inverts floatText floatOf fuel) (v : Json)
    (items : List Json) (rest : List Char) (hv : Readable floatText floatOf v)
    (hitems : ReadableItems floatText floatOf items)
    (hlen : (dumps floatText v ++ dumpItems floatText items).length ≤ fuel + 1) :
    JsonText.elements floatOf (fuel + 1)
      (dumps floatText v ++ (dumpItems floatText items ++ rest)) = some (v :: items, rest) := by
  have hclose : 1 ≤ (dumpItems floatText items).length := by
    cases items <;> simp [dumpItems]
  rw [List.length_append] at hlen
  have hvalue := h.value v (dumpItems floatText items ++ rest) hv (by omega)
    (delimited_items floatText items rest)
  simp only [JsonText.elements, hvalue]
  cases items with
  | nil => rfl
  | cons item items =>
      obtain ⟨hitem, hmore⟩ := hitems
      have hskip := (opens_dumps floatText floatOf hitem (dumpItems floatText items ++ rest)).1
      have hblank (text : List Char) : skip (' ' :: text) = skip text := skip_blank rfl
      have hcomma (text : List Char) : skip (',' :: text) = ',' :: text := skip_cons rfl
      have helements := h.elements item items rest hitem hmore (by
        simp only [dumpItems, List.length_cons, List.length_append] at hlen ⊢
        omega)
      simp only [dumpItems, List.cons_append, List.append_assoc, hcomma, hblank, hskip, helements]
      rfl

theorem inverts (fuel : Nat) : Inverts floatText floatOf fuel := by
  induction fuel with
  | zero => exact Inverts.zero
  | succ fuel ih => exact ⟨ih.value_succ, ih.members_succ, ih.elements_succ⟩

-- The text of a value, with whitespace around it or not.
theorem loads_dumps {v : Json} (h : Readable floatText floatOf v) :
    loads floatOf (dumps floatText v) = some v := by
  have hopens := (opens_dumps floatText floatOf h []).1
  rw [List.append_nil] at hopens
  have hdelimited : Delimited [] := by simp [Delimited]
  have hinverts : Inverts floatText floatOf ((dumps floatText v).length + 1) := inverts _
  have hvalue := hinverts.value v [] h (by omega) hdelimited
  rw [List.append_nil] at hvalue
  unfold loads
  rw [hopens, hvalue]
  rfl

end Values

end EvoClaw.JsonText
