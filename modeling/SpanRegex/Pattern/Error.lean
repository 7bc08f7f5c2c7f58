import SpanRegex.Quoted

/-! # Pattern errors

* `Fault`: what is wrong with a pattern text.
* `Error`: a fault with the index of the character it is reported at.
* `Error.message`: the wording.
-/

namespace SpanRegex.Pattern
set_option autoImplicit false

/-- What is wrong with a pattern text. -/
inductive Fault
  | unclosedGroup
  | unbalancedGroup
  /-- The construct after `(?` is none of the known ones. -/
  | invalidGroup
  | unclosedClass
  | incompleteEscape
  /-- The characters after a backslash form no escape. -/
  | invalidEscape
  /-- A class range is reversed, or ends in a set. -/
  | invalidRange
  /-- A reference names a group that has not been opened. -/
  | unknownGroupName (name : String)
  /-- The braces after an item hold no bounds. -/
  | malformedQuantifier
  /-- A class member needs two code units. -/
  | wideClassMember
  deriving DecidableEq, Repr

/-- A fault and the index of the character it is reported at. -/
structure Error where
  fault : Fault
  position : Nat
  deriving DecidableEq, Repr

def Fault.message : Fault → String
  | unclosedGroup => "unclosed group"
  | unbalancedGroup => "unbalanced ')'"
  | invalidGroup => "invalid group construct"
  | unclosedClass => "unclosed character class"
  | incompleteEscape => "incomplete escape"
  | invalidEscape => "invalid escape"
  | invalidRange => "invalid character range"
  | unknownGroupName name => "unknown group name " ++ Quoted.string name
  | malformedQuantifier => "malformed quantifier"
  | wideClassMember => "character class member outside the basic multilingual plane"

def Error.message (e : Error) : String := e.fault.message ++ " at position " ++ toString e.position

end SpanRegex.Pattern
