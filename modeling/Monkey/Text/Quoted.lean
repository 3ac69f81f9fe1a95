import Monkey.Text.Printable

/-!
# Monkey — quoted text

String constants in source text, strings in listings of values, and names in
listings of frames are written between double quotes with the same escapes. A
character that does not print on its own is written by its code point, so the
quoted text always shows what the string holds.
-/

namespace Monkey.Text

/-- The digits of a number in base sixteen, lower case, without leading zeros.
-/
def hex (n : Nat) : String := String.ofList (Nat.toDigits 16 n)

/-- A character between quotes. The apostrophe stands for itself. -/
def quoteChar (c : Char) : String :=
  if c = '\x22' then "\\\""
  else if c = '\\' then "\\\\"
  else if c = '\n' then "\\n"
  else if c = '\r' then "\\r"
  else if c = '\t' then "\\t"
  else if c.toNat = 0 then "\\0"
  else if isPrintable c then String.singleton c
  else "\\u\x7b" ++ hex c.toNat ++ "\x7d"

/-- A string between quotes. -/
def quote (s : String) : String := "\"" ++ String.join (s.toList.map quoteChar) ++ "\""

end Monkey.Text
