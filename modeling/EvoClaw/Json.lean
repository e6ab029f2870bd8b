import Mathlib.Algebra.Order.Ring.Nat
import Mathlib.Order.Basic

namespace EvoClaw

-- What json.loads returns. A float is its IEEE 754 double.
inductive Json where
  | null
  | bool (value : Bool)
  | int (value : Int)
  | float (bits : BitVec 64)
  | str (text : String)
  | arr (items : List Json)
  | obj (fields : List (String × Json))

abbrev Payload := List (String × Json)

-- payload.get(key, default)
def Payload.get (payload : Payload) (key : String) (default : Json) : Json :=
  (payload.lookup key).getD default

-- str.isspace
def isSpace (c : Char) : Bool :=
  let code := c.toNat
  (9 ≤ code ∧ code ≤ 13) ∨ (28 ≤ code ∧ code ≤ 32) ∨ code = 0x85 ∨ code = 0xa0 ∨ code = 0x1680 ∨
    (0x2000 ≤ code ∧ code ≤ 0x200a) ∨ code = 0x2028 ∨ code = 0x2029 ∨ code = 0x202f ∨
    code = 0x205f ∨ code = 0x3000

-- str.strip
def strip (text : List Char) : List Char :=
  ((text.dropWhile isSpace).reverse.dropWhile isSpace).reverse

-- The zero of each run of ten decimal digits (Unicode category Nd).
def digitZeros : List Nat :=
  [0x30, 0x660, 0x6f0, 0x7c0, 0x966, 0x9e6, 0xa66, 0xae6, 0xb66, 0xbe6, 0xc66, 0xce6, 0xd66, 0xde6,
    0xe50, 0xed0, 0xf20, 0x1040, 0x1090, 0x17e0, 0x1810, 0x1946, 0x19d0, 0x1a80, 0x1a90, 0x1b50,
    0x1bb0, 0x1c40, 0x1c50, 0xa620, 0xa8d0, 0xa900, 0xa9d0, 0xa9f0, 0xaa50, 0xabf0, 0xff10, 0x104a0,
    0x10d30, 0x11066, 0x110f0, 0x11136, 0x111d0, 0x112f0, 0x11450, 0x114d0, 0x11650, 0x116c0,
    0x11730, 0x118e0, 0x11950, 0x11c50, 0x11d50, 0x11da0, 0x11f50, 0x16a60, 0x16ac0, 0x16b50,
    0x1d7ce, 0x1d7d8, 0x1d7e2, 0x1d7ec, 0x1d7f6, 0x1e140, 0x1e2f0, 0x1e4f0, 0x1e950, 0x1fbf0]

def digitValue (c : Char) : Option Nat :=
  (digitZeros.find? fun first => first ≤ c.toNat ∧ c.toNat < first + 10).map fun first =>
    c.toNat - first

-- Single underscores may stand between digits.
def digits (value : Nat) : List Char → Option Nat
  | [] => some value
  | '_' :: c :: rest => (digitValue c).bind fun digit => digits (value * 10 + digit) rest
  | c :: rest => (digitValue c).bind fun digit => digits (value * 10 + digit) rest

def natOfText : List Char → Option Nat
  | [] => none
  | c :: rest => (digitValue c).bind fun digit => digits digit rest

-- int(text) raises a ValueError on more digits than this.
def maxStrDigits : Nat := 4300

-- int(text)
def intOfText (text : String) : Option Int :=
  let body := strip text.toList
  if maxStrDigits < (body.filter fun c => (digitValue c).isSome).length then none
  else match body with
    | '-' :: rest => (natOfText rest).map fun value => -value
    | '+' :: rest => (natOfText rest).map fun value => value
    | rest => (natOfText rest).map fun value => value

-- int(value) of a double: rounded towards zero. Infinities and NaN raise.
def truncate (bits : BitVec 64) : Option Int :=
  let exponent := bits.toNat / 2 ^ 52 % 2 ^ 11
  let fraction := bits.toNat % 2 ^ 52
  let mantissa := if exponent = 0 then fraction else fraction + 2 ^ 52
  let magnitude : Nat :=
    if 1075 ≤ exponent then mantissa * 2 ^ (exponent - 1075)
    else mantissa / 2 ^ (1075 - exponent)
  if exponent = 2 ^ 11 - 1 then none
  else some (if bits.msb then -magnitude else magnitude)

-- SQLite integers are signed 64 bit. A larger int cannot be bound.
def isInt64 (value : Int) : Bool :=
  -2 ^ 63 ≤ value ∧ value < 2 ^ 63

namespace Json

def truthy : Json → Bool
  | null => false
  | bool value => value
  | int value => value ≠ 0
  | float bits => bits.toNat % 2 ^ 63 ≠ 0
  | str text => text ≠ ""
  | arr items => !items.isEmpty
  | obj fields => !fields.isEmpty

instance decidableEqStr (value : Json) (text : String) : Decidable (value = .str text) :=
  match value with
  | str other => decidable_of_iff (other = text) (by rw [Json.str.injEq])
  | null => isFalse nofun
  | bool _ => isFalse nofun
  | int _ => isFalse nofun
  | float _ => isFalse nofun
  | arr _ => isFalse nofun
  | obj _ => isFalse nofun

-- int(value), none where it raises.
def toInt : Json → Option Int
  | bool value => some (if value then 1 else 0)
  | int value => some value
  | float bits => truncate bits
  | str text => intOfText text
  | null => none
  | arr _ => none
  | obj _ => none

-- f"{value}". The text of a value that is no string is the language's.
def format (repr : Json → String) : Json → String
  | str text => text
  | value => repr value

-- What a TEXT column stores for the value: none if the value cannot be bound, some none
-- for NULL. The text of a real number is the database's.
def column (realText : BitVec 64 → Option String) : Json → Option (Option String)
  | null => some none
  | bool value => some (some (if value then "1" else "0"))
  | int value => if isInt64 value then some (some (toString value)) else none
  | float bits => some (realText bits)
  | str text => some (some text)
  | arr _ => none
  | obj _ => none

@[simp] theorem truthy_str (text : String) : (str text).truthy = true ↔ text ≠ "" := by
  simp [truthy]

end Json

end EvoClaw
