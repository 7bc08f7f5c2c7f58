import SpanRegex.UnitSet
import SpanRegex.CodeUnit.Blanks
import SpanRegex.CodeUnit.Letters
import SpanRegex.CodeUnit.CaseMap

/-! # The sets of the unit properties

* `UnitSet.digits`, `UnitSet.words`, `UnitSet.spaces`, `UnitSet.uppers`, `UnitSet.lowers`.
* `UnitSet.insertCases`: a range together with the case images of its units.
-/

namespace SpanRegex.UnitSet
set_option autoImplicit false

def digits : UnitSet := ofPred CodeUnit.isDigit

def words : UnitSet := ofPred CodeUnit.isWord

def spaces : UnitSet := ofPred CodeUnit.isSpace

def uppers : UnitSet := ofPred CodeUnit.isUpper

def lowers : UnitSet := ofPred CodeUnit.isLower

/-- The units from `first` to `last`, ascending. -/
def unitsFrom (first last : CodeUnit) : List CodeUnit :=
  (List.range' first.toNat (last.toNat + 1 - first.toNat)).map Nat.toUInt16

/-- Adds `image` unless it is `u` itself. -/
def insertImage (s : UnitSet) (u image : CodeUnit) : UnitSet :=
  if image == u then s else s.insert image

/-- Adds the units from `first` to `last` and their lower- and upper-case images. -/
def insertCases (s : UnitSet) (first last : CodeUnit) : UnitSet :=
  (unitsFrom first last).foldl
    (fun s u => (s.insertImage u u.toLower).insertImage u u.toUpper)
    (s.insertRange first last)

end SpanRegex.UnitSet
