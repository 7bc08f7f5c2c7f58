/-! # Pattern options

* `Options`: the four switches under which a pattern is read and matched.
-/

namespace SpanRegex.Pattern
set_option autoImplicit false

/-- The switches of a pattern. -/
structure Options where
  /-- Letters match in either case. -/
  ignoreCase : Bool := false
  /-- `^` and `$` match next to every line terminator. -/
  multiline : Bool := false
  /-- `.` matches line terminators too. -/
  singleLine : Bool := false
  /-- White space between the items of a pattern means nothing. -/
  extended : Bool := false
  deriving DecidableEq, Repr, Inhabited

end SpanRegex.Pattern
