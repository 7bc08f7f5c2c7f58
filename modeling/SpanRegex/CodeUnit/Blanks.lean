import SpanRegex.CodeUnit.Run

/-! # White space and line ends

* `CodeUnit.isSpace`: the Unicode property White_Space.
* `CodeUnit.isLineTerminator`: the units at which a line ends.
* `CodeUnit.isSpaceChar`: white space among all characters; it has none above U+FFFF.
-/

namespace SpanRegex.CodeUnit
set_option autoImplicit false

/-- The white space (White_Space). -/
def spaceRuns : List Run := [
  ⟨0x9, 0xD, 1⟩, ⟨0x20, 0x20, 1⟩, ⟨0x85, 0x85, 1⟩, ⟨0xA0, 0xA0, 1⟩, ⟨0x1680, 0x1680, 1⟩,
  ⟨0x2000, 0x200A, 1⟩, ⟨0x2028, 0x2029, 1⟩, ⟨0x202F, 0x202F, 1⟩, ⟨0x205F, 0x205F, 1⟩,
  ⟨0x3000, 0x3000, 1⟩]

/-- The line terminators. -/
def lineTerminatorRuns : List Run := [⟨0xA, 0xD, 1⟩, ⟨0x85, 0x85, 1⟩, ⟨0x2028, 0x2029, 1⟩]

def isSpace (u : CodeUnit) : Bool := Run.decides spaceRuns u.toNat

def isLineTerminator (u : CodeUnit) : Bool := Run.decides lineTerminatorRuns u.toNat

def isSpaceChar (c : Char) : Bool := Run.decides spaceRuns c.toNat

end SpanRegex.CodeUnit
