import EvoClaw.Json

-- json.dumps and json.loads with their default arguments.
namespace EvoClaw.JsonText

section Dumps

def hexDigit (n : Nat) : Char :=
  Nat.digitChar (n % 16)

-- "\u{0:04x}".format(n)
def unicodeEscape (n : Nat) : List Char :=
  ['\\', 'u', hexDigit (n / 0x1000), hexDigit (n / 0x100), hexDigit (n / 0x10), hexDigit n]

-- A character beyond 0xffff is written as two surrogates.
def highSurrogate (c : Char) : Nat := 0xd800 + (c.toNat - 0x10000) / 0x400

def lowSurrogate (c : Char) : Nat := 0xdc00 + (c.toNat - 0x10000) % 0x400

def escape (c : Char) : List Char :=
  if c = '"' then ['\\', '"']
  else if c = '\\' then ['\\', '\\']
  else if c = '\n' then ['\\', 'n']
  else if c = '\r' then ['\\', 'r']
  else if c = '\t' then ['\\', 't']
  else if c.toNat = 0x0c then ['\\', 'f']
  else if c.toNat = 0x08 then ['\\', 'b']
  else if 0x20 ≤ c.toNat ∧ c.toNat ≤ 0x7e then [c]
  else if c.toNat < 0x10000 then unicodeEscape c.toNat
  else unicodeEscape (highSurrogate c) ++ unicodeEscape (lowSurrogate c)

def quote (text : String) : List Char :=
  '"' :: (text.toList.flatMap escape ++ ['"'])

-- int.__repr__
def intText (value : Int) : List Char :=
  if value < 0 then '-' :: Nat.toDigits 10 value.natAbs else Nat.toDigits 10 value.natAbs

-- The text of a float is the language's.
variable (floatText : BitVec 64 → List Char)

mutual

def dumps : Json → List Char
  | .null => ['n', 'u', 'l', 'l']
  | .bool true => ['t', 'r', 'u', 'e']
  | .bool false => ['f', 'a', 'l', 's', 'e']
  | .int value => intText value
  | .float bits => floatText bits
  | .str text => quote text
  | .arr [] => ['[', ']']
  | .arr (item :: items) => '[' :: (dumps item ++ dumpItems items)
  | .obj [] => ['{', '}']
  | .obj ((key, value) :: fields) =>
      '{' :: (quote key ++ ':' :: ' ' :: (dumps value ++ dumpFields fields))

def dumpItems : List Json → List Char
  | [] => [']']
  | item :: items => ',' :: ' ' :: (dumps item ++ dumpItems items)

def dumpFields : List (String × Json) → List Char
  | [] => ['}']
  | (key, value) :: fields =>
      ',' :: ' ' :: (quote key ++ ':' :: ' ' :: (dumps value ++ dumpFields fields))

end

end Dumps

section Loads

-- The whitespace of JSON.
def isBlank (c : Char) : Bool :=
  c = ' ' || c = '\t' || c = '\n' || c = '\r'

def skip (text : List Char) : List Char :=
  text.dropWhile isBlank

def hexValue (c : Char) : Option Nat :=
  if '0' ≤ c ∧ c ≤ '9' then some (c.toNat - '0'.toNat)
  else if 'a' ≤ c ∧ c ≤ 'f' then some (c.toNat - 'a'.toNat + 10)
  else if 'A' ≤ c ∧ c ≤ 'F' then some (c.toNat - 'A'.toNat + 10)
  else none

-- The character that a backslash and `c` stand for.
def unescape (c : Char) : Option Nat :=
  if c = '"' ∨ c = '\\' ∨ c = '/' then some c.toNat
  else if c = 'b' then some 0x08
  else if c = 'f' then some 0x0c
  else if c = 'n' then some 0x0a
  else if c = 'r' then some 0x0d
  else if c = 't' then some 0x09
  else none

-- The code points of a string up to its closing quote, and the text after it.
def codes : List Char → Option (List Nat × List Char)
  | [] => none
  | '"' :: rest => some ([], rest)
  | '\\' :: 'u' :: a :: b :: c :: d :: rest =>
      match hexValue a, hexValue b, hexValue c, hexValue d with
      | some a, some b, some c, some d =>
          (codes rest).map fun (more, rest) =>
            ((a * 0x1000 + b * 0x100 + c * 0x10 + d) :: more, rest)
      | _, _, _, _ => none
  | '\\' :: c :: rest =>
      match unescape c with
      | none => none
      | some code => (codes rest).map fun (more, rest) => (code :: more, rest)
  | c :: rest =>
      if c.toNat < 0x20 ∨ c = '\\' then none
      else (codes rest).map fun (more, rest) => (c.toNat :: more, rest)

def isHigh (code : Nat) : Bool := 0xd800 ≤ code ∧ code < 0xdc00

def isLow (code : Nat) : Bool := 0xdc00 ≤ code ∧ code < 0xe000

-- A lone surrogate is no Unicode scalar value. The replacement character stands for it.
def charOf (code : Nat) : Char :=
  if isHigh code || isLow code then Char.ofNat 0xfffd else Char.ofNat code

-- Two surrogates that follow each other are one character.
def joined : List Nat → List Char
  | [] => []
  | [code] => [charOf code]
  | high :: low :: rest =>
      if isHigh high && isLow low then
        Char.ofNat (0x10000 + (high - 0xd800) * 0x400 + (low - 0xdc00)) :: joined rest
      else charOf high :: joined (low :: rest)

def string (text : List Char) : Option (String × List Char) :=
  (codes text).map fun (found, rest) => (String.ofList (joined found), rest)

-- The fraction of a number, if there is one.
def fraction : List Char → List Char × List Char
  | '.' :: rest =>
      if (rest.takeWhile Char.isDigit).isEmpty then ([], '.' :: rest)
      else ('.' :: rest.takeWhile Char.isDigit, rest.dropWhile Char.isDigit)
  | rest => ([], rest)

def exponentDigits (mark : List Char) (whole rest : List Char) : List Char × List Char :=
  if (rest.takeWhile Char.isDigit).isEmpty then ([], whole)
  else (mark ++ rest.takeWhile Char.isDigit, rest.dropWhile Char.isDigit)

def exponent (text : List Char) : List Char × List Char :=
  match text with
  | e :: sign :: rest =>
      if e ≠ 'e' ∧ e ≠ 'E' then ([], text)
      else if sign = '+' ∨ sign = '-' then exponentDigits [e, sign] text rest
      else exponentDigits [e] text (sign :: rest)
  | _ => ([], text)

def natOfDigits (text : List Char) : Nat :=
  text.foldl (fun value c => value * 10 + (c.toNat - '0'.toNat)) 0

-- The integer part of a number. There is no zero before other digits.
def wholeDigits : List Char → List Char
  | '0' :: _ => ['0']
  | text => text.takeWhile Char.isDigit

-- float(text) of a JSON number is the language's.
variable (floatOf : List Char → BitVec 64)

-- A number after its sign.
def unsigned (negative : Bool) (text : List Char) : Option (Json × List Char) :=
  let whole := wholeDigits text
  let (part, rest) := fraction (text.drop whole.length)
  let (power, rest) := exponent rest
  let sign := if negative then ['-'] else []
  if whole.isEmpty then none
  else if part.isEmpty ∧ power.isEmpty then
    if maxStrDigits < whole.length then none
    else some (.int (if negative then -natOfDigits whole else natOfDigits whole), rest)
  else some (.float (floatOf (sign ++ whole ++ part ++ power)), rest)

-- dict(pairs): the last value of a key counts, at the place of the first.
def assign (fields : List (String × Json)) (key : String) (value : Json) :
    List (String × Json) :=
  match fields with
  | [] => [(key, value)]
  | (other, held) :: rest =>
      if other = key then (key, value) :: rest else (other, held) :: assign rest key value

def dict (pairs : List (String × Json)) : List (String × Json) :=
  pairs.foldl (fun fields pair => assign fields pair.1 pair.2) []

mutual

-- A value and the text after it. Every level of nesting and every item takes fuel.
def value : Nat → List Char → Option (Json × List Char)
  | 0, _ => none
  | _ + 1, [] => none
  | _ + 1, '"' :: rest => (string rest).map fun (text, rest) => (.str text, rest)
  | fuel + 1, '{' :: rest =>
      match skip rest with
      | '}' :: rest => some (.obj [], rest)
      | rest => (members fuel rest).map fun (pairs, rest) => (.obj (dict pairs), rest)
  | fuel + 1, '[' :: rest =>
      match skip rest with
      | ']' :: rest => some (.arr [], rest)
      | rest => (elements fuel rest).map fun (items, rest) => (.arr items, rest)
  | _ + 1, 'n' :: 'u' :: 'l' :: 'l' :: rest => some (.null, rest)
  | _ + 1, 't' :: 'r' :: 'u' :: 'e' :: rest => some (.bool true, rest)
  | _ + 1, 'f' :: 'a' :: 'l' :: 's' :: 'e' :: rest => some (.bool false, rest)
  | _ + 1, 'N' :: 'a' :: 'N' :: rest => some (.float (floatOf ['N', 'a', 'N']), rest)
  | _ + 1, 'I' :: 'n' :: 'f' :: 'i' :: 'n' :: 'i' :: 't' :: 'y' :: rest =>
      some (.float (floatOf ['I', 'n', 'f', 'i', 'n', 'i', 't', 'y']), rest)
  | _ + 1, '-' :: 'I' :: 'n' :: 'f' :: 'i' :: 'n' :: 'i' :: 't' :: 'y' :: rest =>
      some (.float (floatOf ['-', 'I', 'n', 'f', 'i', 'n', 'i', 't', 'y']), rest)
  | _ + 1, '-' :: rest => unsigned floatOf true rest
  | _ + 1, c :: rest => unsigned floatOf false (c :: rest)

def members : Nat → List Char → Option (List (String × Json) × List Char)
  | 0, _ => none
  | fuel + 1, '"' :: rest =>
      match string rest with
      | none => none
      | some (key, rest) =>
          match skip rest with
          | ':' :: rest =>
              match value fuel (skip rest) with
              | none => none
              | some (item, rest) =>
                  match skip rest with
                  | '}' :: rest => some ([(key, item)], rest)
                  | ',' :: rest => (members fuel (skip rest)).map fun (pairs, rest) =>
                      ((key, item) :: pairs, rest)
                  | _ => none
          | _ => none
  | _ + 1, _ => none

def elements : Nat → List Char → Option (List Json × List Char)
  | 0, _ => none
  | fuel + 1, text =>
      match value fuel text with
      | none => none
      | some (item, rest) =>
          match skip rest with
          | ']' :: rest => some ([item], rest)
          | ',' :: rest => (elements fuel (skip rest)).map fun (items, rest) =>
              (item :: items, rest)
          | _ => none

end

-- Nothing but whitespace may stand around the value.
def loads (text : List Char) : Option Json :=
  match value floatOf (text.length + 1) (skip text) with
  | none => none
  | some (found, rest) => if (skip rest).isEmpty then some found else none

end Loads

end EvoClaw.JsonText

-- json.dumps with ensure_ascii=False.
namespace EvoClaw.JsonText.Utf8

def escape (c : Char) : List Char :=
  if c = '"' then ['\\', '"']
  else if c = '\\' then ['\\', '\\']
  else if c = '\n' then ['\\', 'n']
  else if c = '\r' then ['\\', 'r']
  else if c = '\t' then ['\\', 't']
  else if c.toNat = 0x0c then ['\\', 'f']
  else if c.toNat = 0x08 then ['\\', 'b']
  else if c.toNat < 0x20 then unicodeEscape c.toNat
  else [c]

def quote (text : String) : List Char :=
  '"' :: (text.toList.flatMap escape ++ ['"'])

variable (floatText : BitVec 64 → List Char)

mutual

def dumps : Json → List Char
  | .null => ['n', 'u', 'l', 'l']
  | .bool true => ['t', 'r', 'u', 'e']
  | .bool false => ['f', 'a', 'l', 's', 'e']
  | .int value => intText value
  | .float bits => floatText bits
  | .str text => quote text
  | .arr [] => ['[', ']']
  | .arr (item :: items) => '[' :: (dumps item ++ dumpItems items)
  | .obj [] => ['{', '}']
  | .obj ((key, value) :: fields) =>
      '{' :: (quote key ++ ':' :: ' ' :: (dumps value ++ dumpFields fields))

def dumpItems : List Json → List Char
  | [] => [']']
  | item :: items => ',' :: ' ' :: (dumps item ++ dumpItems items)

def dumpFields : List (String × Json) → List Char
  | [] => ['}']
  | (key, value) :: fields =>
      ',' :: ' ' :: (quote key ++ ':' :: ' ' :: (dumps value ++ dumpFields fields))

end

-- len(json.dumps(value, ensure_ascii=False).encode("utf-8"))
def byteCount (value : Json) : Nat :=
  ((dumps floatText value).map Char.utf8Size).sum

end EvoClaw.JsonText.Utf8
