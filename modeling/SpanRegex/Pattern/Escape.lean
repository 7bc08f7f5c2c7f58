import SpanRegex.Text

/-! # Numbers, names and escapes in pattern text

Each reader looks at the characters from one place on and answers a value with its width, the
number of characters that it takes up.

* `Escape.decimal`, `Escape.name`: a number of 32 bits; a name up to its closing brace.
* `Escape.hexadecimal`, `Escape.octal`, `Escape.unit`: the escapes that stand for one code unit.
-/

namespace SpanRegex.Pattern.Escape
set_option autoImplicit false

/-! ## Digits -/

def hexDigit? (c : Char) : Option Nat :=
  if c.isDigit then some (c.toNat - '0'.toNat)
  else if 'a' ≤ c && c ≤ 'f' then some (c.toNat - 'a'.toNat + 10)
  else if 'A' ≤ c && c ≤ 'F' then some (c.toNat - 'A'.toNat + 10)
  else none

def isOctal (c : Char) : Bool := '0' ≤ c && c ≤ '7'

/-- The number that the digits write in the base. -/
def value (base : Nat) (digits : List Char) : Nat :=
  digits.foldl (fun n c => n * base + (hexDigit? c).getD 0) 0

/-! ## Numbers and names -/

/-- Decimal digits, at least one, whose number fits 32 bits. -/
def decimal (cs : List Char) : Option (UInt32 × Nat) :=
  let digits := cs.takeWhile Char.isDigit
  if digits.isEmpty || 4294967296 ≤ value 10 digits then none
  else some ((value 10 digits).toUInt32, digits.length)

/-- A name and the brace that closes it. -/
def name (cs : List Char) : Option (String × Nat) :=
  let text := cs.takeWhile (· != '\x7d')
  if text.length < cs.length then some (String.ofList text, text.length + 1) else none

/-! ## Escapes for one code unit -/

/-- Two hexadecimal digits, or one to four between braces. -/
def hexadecimal : List Char → Option (CodeUnit × Nat)
  | '\x7b' :: cs =>
    let digits := (cs.takeWhile fun c => (hexDigit? c).isSome).take 4
    if digits.isEmpty || (cs.drop digits.length).head? != some '\x7d' then none
    else some ((value 16 digits).toUInt16, digits.length + 2)
  | cs =>
    let digits := (cs.takeWhile fun c => (hexDigit? c).isSome).take 2
    if digits.length == 2 then some ((value 16 digits).toUInt16, 2) else none

/-- An octal digit and up to two more; the greatest unit written so is 255. -/
def octal (first : Char) (cs : List Char) : CodeUnit × Nat :=
  let more := (cs.takeWhile isOctal).take 2
  ((min 255 (value 8 (first :: more))).toUInt16, more.length)

/-- The unit of a control letter. -/
def control? : Char → Option CodeUnit
  | 't' => some 0x09
  | 'n' => some 0x0A
  | 'r' => some 0x0D
  | 'f' => some 0x0C
  | 'a' => some 0x07
  | 'e' => some 0x1B
  | _ => none

/-- The unit that a backslash and the letter `c` stand for, before the characters `cs`; a letter
without a meaning stands for itself. -/
def unit (c : Char) (cs : List Char) : Option (CodeUnit × Nat) :=
  match control? c with
  | some u => some (u, 0)
  | none =>
    if c == 'x' then hexadecimal cs
    else if isOctal c then some (octal c cs)
    else
      match CodeUnit.ofChar c with
      | [u] => some (u, 0)
      | _ => none

end SpanRegex.Pattern.Escape
