/-! # Text as UTF-16 code units

Patterns are matched against 16-bit code units, and every offset counts units.

* `CodeUnit`, `Text`: one unit, and a text of them; halves of surrogate pairs may stand alone.
* `Text.ofString`, `Text.toString`: encoding, and decoding that puts U+FFFD for each unpaired
  surrogate.
* `Text.slice`: the units between two offsets.
-/

namespace SpanRegex
set_option autoImplicit false

/-- A UTF-16 code unit. -/
abbrev CodeUnit := UInt16

/-- A sequence of code units. -/
abbrev Text := Array CodeUnit

/-! ## Surrogates -/

namespace CodeUnit

/-- The unit is the first half of a surrogate pair. -/
def isHighSurrogate (u : CodeUnit) : Bool := 0xD800 ≤ u && u ≤ 0xDBFF

/-- The unit is the second half of a surrogate pair. -/
def isLowSurrogate (u : CodeUnit) : Bool := 0xDC00 ≤ u && u ≤ 0xDFFF

def toChar? (u : CodeUnit) : Option Char :=
  if h : u.toNat.isValidChar then some (Char.ofNatAux u.toNat h) else none

/-- The units of a character: one, or a surrogate pair above U+FFFF. -/
def ofChar (c : Char) : List CodeUnit :=
  if c.toNat < 0x10000 then
    [c.toNat.toUInt16]
  else
    let above := c.toNat - 0x10000
    [(0xD800 + above / 0x400).toUInt16, (0xDC00 + above % 0x400).toUInt16]

/-- The character of a surrogate pair. -/
def pairToChar (high low : CodeUnit) : Char :=
  Char.ofNat (0x10000 + (high.toNat - 0xD800) * 0x400 + (low.toNat - 0xDC00))

end CodeUnit

/-! ## Encoding and decoding -/

namespace Text

/-- The character that stands for an unpaired surrogate. -/
def replacement : Char := Char.ofNat 0xFFFD

/-- The units of the characters, in order. -/
def encode (chars : List Char) : List CodeUnit := chars.flatMap CodeUnit.ofChar

/-- The characters of the units: pairs are joined, unpaired surrogates replaced. -/
def decode : List CodeUnit → List Char
  | [] => []
  | [u] => [u.toChar?.getD replacement]
  | u :: v :: rest =>
    if u.isHighSurrogate && v.isLowSurrogate then
      CodeUnit.pairToChar u v :: decode rest
    else
      u.toChar?.getD replacement :: decode (v :: rest)

/-- The code units of a string. -/
def ofString (s : String) : Text := (encode s.toList).toArray

/-- The text as a string, each unpaired surrogate replaced. -/
def toString (t : Text) : String := String.ofList (decode t.toList)

/-- The units from offset `start` up to `stop`. -/
def slice (t : Text) (start stop : Nat) : Text := t.extract start stop

end Text

end SpanRegex
