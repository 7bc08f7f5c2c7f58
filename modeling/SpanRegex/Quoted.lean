import SpanRegex.Quoted.Hidden

/-! # Quoted text

Text shown between quotation marks, each character in a form that can be read.

* `Quoted.char`, `Quoted.string`: a character between apostrophes, a string between double quotes.

The backslash, the enclosing mark, NUL, tab, line feed and carriage return have an escape of two
characters; a character that does not show is written as its number in hexadecimal.
-/

namespace SpanRegex.Quoted
set_option autoImplicit false

/-- Lower-case hexadecimal digits without leading zeros. -/
def hex (n : Nat) : List Char := Nat.toDigits 16 n

/-- One character of a text enclosed in `mark`. -/
def escape (mark c : Char) : List Char :=
  if c == mark || c == '\\' then ['\\', c]
  else if c == '\x00' then ['\\', '0']
  else if c == '\t' then ['\\', 't']
  else if c == '\n' then ['\\', 'n']
  else if c == '\r' then ['\\', 'r']
  else if isHidden c then ['\\', 'u', '\x7b'] ++ hex c.toNat ++ ['\x7d']
  else [c]

def char (c : Char) : String := String.ofList ('\'' :: escape '\'' c ++ ['\''])

/-- The string between double quotes. -/
def string (s : String) : String := String.ofList ('"' :: s.toList.flatMap (escape '"') ++ ['"'])

end SpanRegex.Quoted
