import SolidityLint.Number.Digits
import SolidityLint.Text.Hidden

/-!
# Quoted texts

A text is shown between quotes on one line. Quotes, back slashes, line breaks, tabs and
the null character have an escape of their own; other characters that cannot be seen are
shown by their number.

A text that is shown without quotes keeps all characters but those that would steer the
terminal.
-/

namespace SolidityLint.Text

/-- A number in hexadecimal digits. -/
def hexDigits (n : Nat) : List Char := Nat.toDigits 16 n

/-- A character shown by its number. -/
def showNumber (c : Char) : List Char :=
  "\\u\x7b".toList ++ hexDigits c.toNat ++ "\x7d".toList

/-- How a character is shown inside quotes. -/
def showChar (c : Char) : List Char :=
  if c = '"' then ['\\', '"']
  else if c = '\\' then ['\\', '\\']
  else if c = '\n' then ['\\', 'n']
  else if c = '\r' then ['\\', 'r']
  else if c = '\t' then ['\\', 't']
  else if c.toNat = 0 then ['\\', '0']
  else if isHidden c then showNumber c
  else [c]

/-- A text between quotes. -/
def quote (s : String) : String :=
  String.ofList ('"' :: s.toList.flatMap showChar ++ ['"'])

/-- The ASCII characters that steer a terminal: bell, backspace, form feed, escape and
delete. -/
def steering : List Char := ['\x07', '\x08', '\x0c', '\x1b', '\x7f']

/-- How a character is shown without quotes. -/
def showUnquoted (c : Char) : List Char :=
  if c ∈ steering then '\\' :: 'x' :: Digits.twoHex c.toNat
  else if 0x80 ≤ c.toNat ∧ c.toNat ≤ 0x9f then showNumber c
  else [c]

/-- A text with the characters that would steer a terminal shown by their numbers. -/
def disarm (s : String) : String := String.ofList (s.toList.flatMap showUnquoted)

end SolidityLint.Text
