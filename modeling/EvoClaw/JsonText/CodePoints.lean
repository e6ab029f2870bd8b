import EvoClaw.JsonText.Quotes
import EvoClaw.JsonText.Syntax

-- json.loads and json.dumps on strings that may hold lone surrogates, with the exceptions they
-- raise.
namespace EvoClaw.JsonText.CodePoints

-- A str is a list of code points.
abbrev Text := List Nat

inductive Value where
  | null
  | bool (value : Bool)
  | int (value : Int)
  | float (bits : BitVec 64)
  | str (text : Text)
  | arr (items : List Value)
  | obj (fields : List (Text × Value))

abbrev Fields := List (Text × Value)

def ofChars (text : List Char) : Text := text.map Char.toNat

def ofString (text : String) : Text := ofChars text.toList

mutual

def ofJson : Json → Value
  | .null => .null
  | .bool value => .bool value
  | .int value => .int value
  | .float bits => .float bits
  | .str text => .str (ofString text)
  | .arr items => .arr (ofJsonItems items)
  | .obj fields => .obj (ofJsonFields fields)

def ofJsonItems : List Json → List Value
  | [] => []
  | item :: items => ofJson item :: ofJsonItems items

def ofJsonFields : List (String × Json) → Fields
  | [] => []
  | (key, value) :: fields => (ofString key, ofJson value) :: ofJsonFields fields

end

section Loads

-- JSONDecodeError, the ValueError of int() on too many digits, and RecursionError.
inductive LoadsError where
  | decode
  | value
  | recursion
deriving DecidableEq

-- Two escapes that are a pair of surrogates are one character.
def paired : List Nat → Text
  | [] => []
  | [code] => [code]
  | high :: low :: rest =>
      if isHigh high && isLow low then
        (0x10000 + (high - 0xd800) * 0x400 + (low - 0xdc00)) :: paired rest
      else high :: paired (low :: rest)

def string (text : List Char) : Except LoadsError (Text × List Char) :=
  match codes text with
  | some (found, rest) => .ok (paired found, rest)
  | none => .error .decode

-- dict(pairs): the last value of a key counts, at the place of the first.
def assign (fields : Fields) (key : Text) (value : Value) : Fields :=
  match fields with
  | [] => [(key, value)]
  | (other, held) :: rest =>
      if other = key then (key, value) :: rest else (other, held) :: assign rest key value

def dict (pairs : Fields) : Fields :=
  pairs.foldl (fun fields pair => assign fields pair.1 pair.2) []

-- float(text) of a JSON number is the language's.
variable (floatOf : List Char → BitVec 64)

-- A number after its sign.
def unsigned (negative : Bool) (text : List Char) : Except LoadsError (Value × List Char) :=
  let whole := wholeDigits text
  let (part, rest) := fraction (text.drop whole.length)
  let (power, rest) := exponent rest
  let sign := if negative then ['-'] else []
  if whole.isEmpty then .error .decode
  else if part.isEmpty ∧ power.isEmpty then
    if maxStrDigits < whole.length then .error .value
    else .ok (.int (if negative then -natOfDigits whole else natOfDigits whole), rest)
  else .ok (.float (floatOf (sign ++ whole ++ part ++ power)), rest)

-- A value that is no object and no array.
def scalar : List Char → Except LoadsError (Value × List Char)
  | [] => .error .decode
  | '"' :: rest => (string rest).map fun (text, rest) => (.str text, rest)
  | 'n' :: 'u' :: 'l' :: 'l' :: rest => .ok (.null, rest)
  | 't' :: 'r' :: 'u' :: 'e' :: rest => .ok (.bool true, rest)
  | 'f' :: 'a' :: 'l' :: 's' :: 'e' :: rest => .ok (.bool false, rest)
  | 'N' :: 'a' :: 'N' :: rest => .ok (.float (floatOf ['N', 'a', 'N']), rest)
  | 'I' :: 'n' :: 'f' :: 'i' :: 'n' :: 'i' :: 't' :: 'y' :: rest =>
      .ok (.float (floatOf ['I', 'n', 'f', 'i', 'n', 'i', 't', 'y']), rest)
  | '-' :: 'I' :: 'n' :: 'f' :: 'i' :: 'n' :: 'i' :: 't' :: 'y' :: rest =>
      .ok (.float (floatOf ['-', 'I', 'n', 'f', 'i', 'n', 'i', 't', 'y']), rest)
  | '-' :: rest => unsigned floatOf true rest
  | c :: rest => unsigned floatOf false (c :: rest)

mutual

-- A value and the text after it, with so many levels of nesting left. Every level and every
-- item takes fuel.
def value : Nat → Nat → List Char → Except LoadsError (Value × List Char)
  | 0, _, _ => .error .decode
  | _ + 1, 0, '{' :: _ => .error .recursion
  | fuel + 1, depth + 1, '{' :: rest =>
      match skip rest with
      | '}' :: rest => .ok (.obj [], rest)
      | rest => (members fuel depth rest).map fun (pairs, rest) => (.obj (dict pairs), rest)
  | _ + 1, 0, '[' :: _ => .error .recursion
  | fuel + 1, depth + 1, '[' :: rest =>
      match skip rest with
      | ']' :: rest => .ok (.arr [], rest)
      | rest => (elements fuel depth rest).map fun (items, rest) => (.arr items, rest)
  | _ + 1, _, text => scalar floatOf text

def members : Nat → Nat → List Char → Except LoadsError (Fields × List Char)
  | 0, _, _ => .error .decode
  | fuel + 1, depth, '"' :: rest =>
      match string rest with
      | .error e => .error e
      | .ok (key, rest) =>
          match skip rest with
          | ':' :: rest =>
              match value fuel depth (skip rest) with
              | .error e => .error e
              | .ok (item, rest) =>
                  match skip rest with
                  | '}' :: rest => .ok ([(key, item)], rest)
                  | ',' :: rest => (members fuel depth (skip rest)).map fun (pairs, rest) =>
                      ((key, item) :: pairs, rest)
                  | _ => .error .decode
          | _ => .error .decode
  | _ + 1, _, _ => .error .decode

def elements : Nat → Nat → List Char → Except LoadsError (List Value × List Char)
  | 0, _, _ => .error .decode
  | fuel + 1, depth, text =>
      match value fuel depth text with
      | .error e => .error e
      | .ok (item, rest) =>
          match skip rest with
          | ']' :: rest => .ok ([item], rest)
          | ',' :: rest => (elements fuel depth (skip rest)).map fun (items, rest) =>
              (item :: items, rest)
          | _ => .error .decode

end

-- Nothing but whitespace may stand around the value.
def loadsWith (fuel depth : Nat) (text : List Char) : Except LoadsError Value :=
  match value floatOf fuel depth (skip text) with
  | .error e => .error e
  | .ok (found, rest) => if (skip rest).isEmpty then .ok found else .error .decode

def loads (depth : Nat) (text : List Char) : Except LoadsError Value :=
  loadsWith floatOf (2 * text.length + 1) depth text

end Loads

section Fuel

variable {floatOf : List Char → BitVec 64} {fuel level : Nat} {text rest : List Char} {v : Value}

theorem length_skip_le (text : List Char) : (skip text).length ≤ text.length :=
  List.length_dropWhile_le isBlank text

theorem length_skip_cons {c : Char} (h : skip text = c :: rest) : rest.length < text.length := by
  have hle := length_skip_le text
  rw [h, List.length_cons] at hle
  exact hle

theorem Reads.length_le {found : List String} (h : JsonText.Reads found text rest) :
    rest.length ≤ text.length := by
  obtain ⟨used, rfl, -⟩ := h
  rw [List.length_append]
  exact Nat.le_add_left _ _

theorem length_string_le {key : Text} (h : string text = .ok (key, rest)) :
    rest.length ≤ text.length := by
  unfold string at h
  split at h
  · next hcodes =>
      cases h
      obtain ⟨used, rfl, -⟩ := codes_reads hcodes
      rw [List.length_append]
      exact Nat.le_add_left _ _
  · cases h

theorem length_unsigned_le {negative : Bool} (h : unsigned floatOf negative text = .ok (v, rest)) :
    rest.length ≤ text.length := by
  have hreads := ((wholeDigits_reads text).trans (fraction_reads _)).trans (exponent_reads _)
  unfold unsigned at h
  dsimp only at h
  split_ifs at h <;> cases h <;> exact Reads.length_le hreads

theorem map_eq_ok {α β : Type} {x : Except LoadsError α} {f : α → β} {b : β}
    (h : x.map f = .ok b) : ∃ a, x = .ok a ∧ f a = b := by
  cases x with
  | error e => cases h
  | ok a => exact ⟨a, rfl, Except.ok.inj h⟩

theorem length_scalar_le (h : scalar floatOf text = .ok (v, rest)) :
    rest.length ≤ text.length := by
  unfold scalar at h
  split at h
  · cases h
  · obtain ⟨⟨key, after⟩, hstring, heq⟩ := map_eq_ok h
    cases heq
    exact Nat.le_succ_of_le (length_string_le hstring)
  iterate 6
    · cases h
      simp only [List.length_cons]
      omega
  · exact Nat.le_succ_of_le (length_unsigned_le h)
  · exact length_unsigned_le h

-- What a parser leaves is not longer than what it is given.
structure Shortens (floatOf : List Char → BitVec 64) (fuel : Nat) : Prop where
  value : ∀ {level text v rest}, value floatOf fuel level text = .ok (v, rest) →
    rest.length ≤ text.length
  members : ∀ {level text pairs rest}, members floatOf fuel level text = .ok (pairs, rest) →
    rest.length ≤ text.length
  elements : ∀ {level text items rest}, elements floatOf fuel level text = .ok (items, rest) →
    rest.length ≤ text.length

theorem Shortens.value_succ (ih : Shortens floatOf fuel)
    (h : CodePoints.value floatOf (fuel + 1) level text = .ok (v, rest)) :
    rest.length ≤ text.length := by
  unfold CodePoints.value at h
  split at h
  · cases h
  · cases h
  · next fuel' level rest' heq =>
      cases heq
      have hskip := length_skip_le rest'
      split at h
      · next hempty =>
          cases h
          exact Nat.le_succ_of_le (length_skip_cons hempty).le
      · obtain ⟨⟨pairs, after⟩, hmembers, heq⟩ := map_eq_ok h
        cases heq
        have hrest := ih.members hmembers
        rw [List.length_cons]
        omega
  · cases h
  · next fuel' level rest' heq =>
      cases heq
      have hskip := length_skip_le rest'
      split at h
      · next hempty =>
          cases h
          exact Nat.le_succ_of_le (length_skip_cons hempty).le
      · obtain ⟨⟨items, after⟩, helements, heq⟩ := map_eq_ok h
        cases heq
        have hrest := ih.elements helements
        rw [List.length_cons]
        omega
  · exact length_scalar_le h

theorem Shortens.members_succ (ih : Shortens floatOf fuel) {pairs : Fields}
    (h : CodePoints.members floatOf (fuel + 1) level text = .ok (pairs, rest)) :
    rest.length ≤ text.length := by
  unfold CodePoints.members at h
  split at h
  · cases h
  · next fuel' level rest' heq =>
      cases heq
      split at h
      · cases h
      next key afterKey hkey =>
        have hafterKey := length_string_le hkey
        split at h
        · next afterColon hcolon =>
            have hafterColon := length_skip_cons hcolon
            split at h
            · cases h
            next item afterItem hitem =>
              have hafterItem := (ih.value hitem).trans (length_skip_le _)
              split at h
              · next hclose =>
                  cases h
                  have := length_skip_cons hclose
                  rw [List.length_cons]
                  omega
              · next afterComma hcomma =>
                  obtain ⟨⟨more, after⟩, hmore, heq⟩ := map_eq_ok h
                  cases heq
                  have := length_skip_cons hcomma
                  have := (ih.members hmore).trans (length_skip_le _)
                  rw [List.length_cons]
                  omega
              · cases h
        · cases h
  · cases h

theorem Shortens.elements_succ (ih : Shortens floatOf fuel) {items : List Value}
    (h : CodePoints.elements floatOf (fuel + 1) level text = .ok (items, rest)) :
    rest.length ≤ text.length := by
  unfold CodePoints.elements at h
  split at h
  · cases h
  next item afterItem hitem =>
    have hafterItem := ih.value hitem
    split at h
    · next hclose =>
        cases h
        have := length_skip_cons hclose
        omega
    · next afterComma hcomma =>
        obtain ⟨⟨more, after⟩, hmore, heq⟩ := map_eq_ok h
        cases heq
        have := length_skip_cons hcomma
        have := (ih.elements hmore).trans (length_skip_le _)
        omega
    · cases h

theorem shortens (floatOf : List Char → BitVec 64) (fuel : Nat) : Shortens floatOf fuel := by
  induction fuel with
  | zero =>
      refine ⟨fun h => ?_, fun h => ?_, fun h => ?_⟩
      · cases h
      · simp [CodePoints.members] at h
      · simp [CodePoints.elements] at h
  | succ fuel ih => exact ⟨ih.value_succ, ih.members_succ, ih.elements_succ⟩

-- With enough fuel for the text, more of it makes no difference.
structure Enough (floatOf : List Char → BitVec 64) (fuel : Nat) : Prop where
  value : ∀ level text, 2 * text.length < fuel →
    value floatOf (fuel + 1) level text = value floatOf fuel level text
  members : ∀ level text, 2 * text.length + 1 < fuel →
    members floatOf (fuel + 1) level text = members floatOf fuel level text
  elements : ∀ level text, 2 * text.length + 1 < fuel →
    elements floatOf (fuel + 1) level text = elements floatOf fuel level text

theorem Enough.elements_succ (ih : Enough floatOf fuel) (h : 2 * text.length + 1 < fuel + 1) :
    CodePoints.elements floatOf (fuel + 2) level text =
      CodePoints.elements floatOf (fuel + 1) level text := by
  rw [CodePoints.elements, CodePoints.elements, ih.value level text (by omega)]
  cases hitem : CodePoints.value floatOf fuel level text with
  | error e => rfl
  | ok found =>
      have hafter := (shortens floatOf fuel).value hitem
      dsimp only
      split
      · rfl
      · next afterComma hcomma =>
          have hshort := length_skip_cons hcomma
          have hskip := length_skip_le afterComma
          rw [ih.elements level (JsonText.skip afterComma) (by omega)]
      · rfl

theorem Enough.members_succ (ih : Enough floatOf fuel) (h : 2 * text.length + 1 < fuel + 1) :
    CodePoints.members floatOf (fuel + 2) level text =
      CodePoints.members floatOf (fuel + 1) level text := by
  cases text with
  | nil => rfl
  | cons c text =>
  rw [List.length_cons] at h
  by_cases hc : c = '"'
  swap
  · simp [CodePoints.members, hc]
  subst hc
  rw [CodePoints.members, CodePoints.members]
  cases hkey : string text with
  | error e => rfl
  | ok found =>
      have hafterKey := length_string_le hkey
      dsimp only
      split
      · next afterColon hcolon =>
          have hafterColon := length_skip_cons hcolon
          have hskip := length_skip_le afterColon
          rw [ih.value level (JsonText.skip afterColon) (by omega)]
          cases hitem : CodePoints.value floatOf fuel level (JsonText.skip afterColon) with
          | error e => rfl
          | ok item =>
              have hafterItem := (shortens floatOf fuel).value hitem
              dsimp only
              split
              · rfl
              · next afterComma hcomma =>
                  have hshort := length_skip_cons hcomma
                  have hskip' := length_skip_le afterComma
                  rw [ih.members level (JsonText.skip afterComma) (by omega)]
              · rfl
      · rfl

theorem value_scalar {c : Char} (hbrace : c ≠ '{') (hbracket : c ≠ '[') :
    value floatOf (fuel + 1) level (c :: text) = scalar floatOf (c :: text) := by
  unfold value
  split
  · next heq => cases heq
  · next heq => exact absurd (List.cons.inj heq).1 hbrace
  · next heq => exact absurd (List.cons.inj heq).1 hbrace
  · next heq => exact absurd (List.cons.inj heq).1 hbracket
  · next heq => exact absurd (List.cons.inj heq).1 hbracket
  · rfl

theorem Enough.value_succ (ih : Enough floatOf fuel) (h : 2 * text.length < fuel + 1) :
    CodePoints.value floatOf (fuel + 2) level text =
      CodePoints.value floatOf (fuel + 1) level text := by
  cases text with
  | nil => cases level <;> rfl
  | cons c text =>
  rw [List.length_cons] at h
  have hskip := length_skip_le text
  by_cases hbrace : c = '{'
  · subst hbrace
    cases level with
    | zero => rfl
    | succ level =>
        have hinner := ih.members level (JsonText.skip text) (by omega)
        rw [CodePoints.value, CodePoints.value]
        split
        · rfl
        · rw [hinner]
  by_cases hbracket : c = '['
  · subst hbracket
    cases level with
    | zero => rfl
    | succ level =>
        have hinner := ih.elements level (JsonText.skip text) (by omega)
        rw [CodePoints.value, CodePoints.value]
        split
        · rfl
        · rw [hinner]
  · rw [value_scalar hbrace hbracket, value_scalar hbrace hbracket]

theorem enough (floatOf : List Char → BitVec 64) (fuel : Nat) : Enough floatOf fuel := by
  induction fuel with
  | zero =>
      exact ⟨fun _ _ h => absurd h (Nat.not_lt_zero _), fun _ _ h => absurd h (Nat.not_lt_zero _),
        fun _ _ h => absurd h (Nat.not_lt_zero _)⟩
  | succ fuel ih =>
      exact ⟨fun _ _ => ih.value_succ, fun _ _ => ih.members_succ, fun _ _ => ih.elements_succ⟩

theorem loads_nil : loads floatOf level [] = .error .decode := by
  cases level <;> rfl

theorem value_fuel {more : Nat} (h : 2 * text.length < fuel) (hle : fuel ≤ more) :
    value floatOf more level text = value floatOf fuel level text := by
  induction more, hle using Nat.le_induction with
  | base => rfl
  | succ more hle ih => rw [(enough floatOf more).value level text (by omega), ih]

-- The fuel of loads does not run out: any other that is enough has the same outcome.
theorem loadsWith_eq_loads (h : 2 * text.length < fuel) :
    loadsWith floatOf fuel level text = loads floatOf level text := by
  have hskip := length_skip_le text
  have hsame : value floatOf fuel level (skip text) =
      value floatOf (2 * text.length + 1) level (skip text) := value_fuel (by omega) h
  rw [loads, loadsWith, loadsWith, hsame]

end Fuel

section Dumps

def isSurrogate (code : Nat) : Bool := isHigh code || isLow code

def escape (code : Nat) : Text :=
  if isSurrogate code then [code] else ofChars (Utf8.escape (Char.ofNat code))

def quote (text : Text) : Text := ofString "\"" ++ (text.flatMap escape ++ ofString "\"")

variable (floatText : BitVec 64 → List Char)

mutual

-- json.dumps with ensure_ascii=False
def dumps : Value → Text
  | .null => ofString "null"
  | .bool true => ofString "true"
  | .bool false => ofString "false"
  | .int value => ofChars (intText value)
  | .float bits => ofChars (floatText bits)
  | .str text => quote text
  | .arr [] => ofString "[]"
  | .arr (item :: items) => ofString "[" ++ (dumps item ++ dumpItems items)
  | .obj [] => ofString "\x7b\x7d"
  | .obj ((key, value) :: fields) =>
      ofString "\x7b" ++ (quote key ++ (ofString ": " ++ (dumps value ++ dumpFields fields)))

def dumpItems : List Value → Text
  | [] => ofString "]"
  | item :: items => ofString ", " ++ (dumps item ++ dumpItems items)

def dumpFields : Fields → Text
  | [] => ofString "\x7d"
  | (key, value) :: fields =>
      ofString ", " ++ (quote key ++ (ofString ": " ++ (dumps value ++ dumpFields fields)))

end

mutual

-- How many levels of nesting a value has.
def depth : Value → Nat
  | .arr items => depthItems items + 1
  | .obj fields => depthFields fields + 1
  | .null | .bool _ | .int _ | .float _ | .str _ => 0

def depthItems : List Value → Nat
  | [] => 0
  | item :: items => max (depth item) (depthItems items)

def depthFields : Fields → Nat
  | [] => 0
  | (_, value) :: fields => max (depth value) (depthFields fields)

end

-- str.encode() raises a UnicodeEncodeError on a surrogate.
def encode (text : Text) : Option (List UInt8) :=
  if text.any isSurrogate then none
  else some (text.flatMap fun code => String.utf8EncodeChar (Char.ofNat code))

end Dumps

section Clean

def Clean (text : Text) : Prop := ∀ code ∈ text, isSurrogate code = false

mutual

-- No string of the value holds a lone surrogate.
def Encodes : Value → Prop
  | .str text => Clean text
  | .arr items => EncodesItems items
  | .obj fields => EncodesFields fields
  | .null | .bool _ | .int _ | .float _ => True

def EncodesItems : List Value → Prop
  | [] => True
  | item :: items => Encodes item ∧ EncodesItems items

def EncodesFields : Fields → Prop
  | [] => True
  | (key, value) :: fields => Clean key ∧ Encodes value ∧ EncodesFields fields

end

variable {text other : Text} {code : Nat}

theorem encode_isSome_iff : (encode text).isSome ↔ Clean text := by
  unfold encode
  split
  · next h =>
      obtain ⟨code, hmem, hcode⟩ := List.any_eq_true.mp h
      refine iff_of_false Bool.false_ne_true fun hclean => ?_
      rw [hclean code hmem] at hcode
      cases hcode
  · next h =>
      refine iff_of_true rfl fun code hmem => ?_
      exact Bool.eq_false_iff.mpr fun hcode => h (List.any_eq_true.mpr ⟨code, hmem, hcode⟩)

@[simp] theorem clean_append : Clean (text ++ other) ↔ Clean text ∧ Clean other :=
  List.forall_mem_append

@[simp] theorem clean_ofChars (text : List Char) : Clean (ofChars text) := by
  intro code hmem
  obtain ⟨c, -, rfl⟩ := List.mem_map.mp hmem
  obtain ⟨-, hhigh, hlow⟩ := toNat_valid c
  rw [isSurrogate, hhigh, hlow, Bool.or_false]

@[simp] theorem clean_ofString (text : String) : Clean (ofString text) := clean_ofChars _

theorem clean_escape : Clean (escape code) ↔ isSurrogate code = false := by
  unfold escape
  split
  · exact List.forall_mem_singleton
  · next h => exact iff_of_true (clean_ofChars _) (Bool.eq_false_iff.mpr h)

@[simp] theorem clean_quote : Clean (quote text) ↔ Clean text := by
  have hescapes : Clean (text.flatMap escape) ↔ Clean text := by
    unfold Clean
    rw [List.forall_mem_flatMap]
    exact forall₂_congr fun _ _ => clean_escape
  unfold quote
  simp [hescapes]

variable (floatText : BitVec 64 → List Char)

mutual

-- A lone surrogate of the value is one of its text, and there are no others.
theorem clean_dumps : ∀ v, Clean (dumps floatText v) ↔ Encodes v
  | .null | .bool true | .bool false => by simp [dumps, Encodes]
  | .int _ | .float _ => by simp [dumps, Encodes]
  | .str text => by simp [dumps, Encodes]
  | .arr [] => by simp [dumps, Encodes, EncodesItems]
  | .arr (item :: items) => by
      simp only [dumps, Encodes, EncodesItems, clean_append, clean_ofString, true_and,
        clean_dumps item, clean_dumpItems items]
  | .obj [] => by simp [dumps, Encodes, EncodesFields]
  | .obj ((key, value) :: fields) => by
      simp only [dumps, Encodes, EncodesFields, clean_append, clean_ofString, true_and,
        clean_quote, clean_dumps value, clean_dumpFields fields]

theorem clean_dumpItems : ∀ items, Clean (dumpItems floatText items) ↔ EncodesItems items
  | [] => by simp [dumpItems, EncodesItems]
  | item :: items => by
      simp only [dumpItems, EncodesItems, clean_append, clean_ofString, true_and,
        clean_dumps item, clean_dumpItems items]

theorem clean_dumpFields : ∀ fields, Clean (dumpFields floatText fields) ↔ EncodesFields fields
  | [] => by simp [dumpFields, EncodesFields]
  | (key, value) :: fields => by
      simp only [dumpFields, EncodesFields, clean_append, clean_ofString, true_and,
        clean_quote, clean_dumps value, clean_dumpFields fields]

end

mutual

theorem encodes_ofJson : ∀ v, Encodes (ofJson v)
  | .null | .bool _ | .int _ | .float _ => trivial
  | .str text => clean_ofString text
  | .arr items => encodes_ofJsonItems items
  | .obj fields => encodes_ofJsonFields fields

theorem encodes_ofJsonItems : ∀ items, EncodesItems (ofJsonItems items)
  | [] => trivial
  | item :: items => ⟨encodes_ofJson item, encodes_ofJsonItems items⟩

theorem encodes_ofJsonFields : ∀ fields, EncodesFields (ofJsonFields fields)
  | [] => trivial
  | (key, value) :: fields =>
      ⟨clean_ofString key, encodes_ofJson value, encodes_ofJsonFields fields⟩

end

end Clean

end EvoClaw.JsonText.CodePoints
