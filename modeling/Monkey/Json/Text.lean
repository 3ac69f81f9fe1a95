/-!
# Monkey — strings of JSON documents

A string is written as a row of items: characters, some of them escaped by a
letter, and code units of sixteen bits escaped by their number. Two units that
form a surrogate pair are one character, and a surrogate without its partner is
no character at all: such a string can be read over, and has no text.
-/

namespace Monkey.Json

/-- One item of a written string. -/
inductive StringItem where
  /-- A character that stands for itself or was escaped by a letter. -/
  | char (c : Char)
  /-- A code unit escaped by its four digits. -/
  | unit (n : Nat)
  deriving DecidableEq, Repr

/-- Whether a code unit is the first half of a surrogate pair. -/
def isHigh (n : Nat) : Bool := 0xd800 ≤ n && n < 0xdc00

/-- Whether a code unit is the second half of a surrogate pair. -/
def isLow (n : Nat) : Bool := 0xdc00 ≤ n && n < 0xe000

/-- The character of a surrogate pair. -/
def pairChar (high low : Nat) : Char :=
  Char.ofNat (0x10000 + (high - 0xd800) * 0x400 + (low - 0xdc00))

/-- The characters of a row of items; none if a surrogate has no partner. -/
def chars? : List StringItem → Option (List Char)
  | [] => some []
  | .char c :: items => (chars? items).map (c :: ·)
  | .unit high :: .unit low :: items =>
    if isHigh high && isLow low then (chars? items).map (pairChar high low :: ·)
    else if isHigh high || isLow high then none
    else (chars? (.unit low :: items)).map (Char.ofNat high :: ·)
  | .unit n :: items =>
    if isHigh n || isLow n then none else (chars? items).map (Char.ofNat n :: ·)

/-- The text of a row of items. -/
def itemsText? (items : List StringItem) : Option String := (chars? items).map String.ofList

/-- A digit in base sixteen. -/
def hexDigit? (c : Char) : Option Nat :=
  if '0' ≤ c ∧ c ≤ '9' then some (c.toNat - '0'.toNat)
  else if 'a' ≤ c ∧ c ≤ 'f' then some (c.toNat - 'a'.toNat + 10)
  else if 'A' ≤ c ∧ c ≤ 'F' then some (c.toNat - 'A'.toNat + 10)
  else none

/-- The character that a letter after a backslash stands for. -/
def escaped? : Char → Option Char
  | '\x22' => some '\x22'
  | '\\' => some '\\'
  | '/' => some '/'
  | 'b' => some '\x08'
  | 'f' => some '\x0c'
  | 'n' => some '\n'
  | 'r' => some '\r'
  | 't' => some '\t'
  | _ => none

/-- A character as it is written in a string: escaped by a letter if it has one,
by its number if it is another control character, and otherwise as it is. -/
def escape (c : Char) : String :=
  if c = '\x22' then "\\\""
  else if c = '\\' then "\\\\"
  else if c = '\x08' then "\\b"
  else if c = '\t' then "\\t"
  else if c = '\n' then "\\n"
  else if c = '\x0c' then "\\f"
  else if c = '\r' then "\\r"
  else if c < ' ' then
    "\\u00" ++ String.ofList [Nat.digitChar (c.toNat / 16), Nat.digitChar (c.toNat % 16)]
  else String.singleton c

/-- A string in quotes. -/
def quoted (s : String) : String := "\"" ++ String.join (s.toList.map escape) ++ "\""

end Monkey.Json
