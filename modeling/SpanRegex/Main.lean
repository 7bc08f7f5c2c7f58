import SpanRegex.CommandLine.Run

/-! # The program

Searches a file, or standard input, line by line for a pattern.
-/

namespace SpanRegex
set_option autoImplicit false

/-- The turns that one attempt may take: more than can be taken in a lifetime. -/
def turnsOfALifetime : Nat := 4611686018427387904

/-- The number of a failure, which the system may give negated. -/
def failureNumber (code : UInt32) : Nat :=
  if code.toNat < 2147483648 then code.toNat else (0 - code).toNat

/-- Why a text could not be read, in the words of the system. -/
def readFailure : IO.Error → String
  | .noFileOrDirectory _ code details
  | .permissionDenied _ code details
  | .inappropriateType _ code details
  | .invalidArgument _ code details =>
    match CommandLine.ReadFault.ofNumber? (failureNumber code) with
    | some fault => fault.message
    | none => details ++ " (os error " ++ toString (failureNumber code) ++ ")"
  | e => toString e

/-- Prints an outcome; answers its exit code. -/
def finish (o : CommandLine.Outcome) : IO UInt32 := do
  IO.print o.out
  IO.eprint o.err
  pure o.code.toUInt32

/-- The text of a source, or why it cannot be read. -/
def readUtf8 (source : IO ByteArray) : IO (Except String String) := do
  try
    match String.fromUTF8? (← source) with
    | some text => pure (.ok text)
    | none => pure (.error "stream did not contain valid UTF-8")
  catch e => pure (.error (readFailure e))

def readText : Option String → IO (Except CommandLine.Outcome String)
  | none => do
    let text ← readUtf8 (do (← IO.getStdin).readBinToEnd)
    pure (text.mapError (.unreadable "stdin"))
  | some path => do
    let text ← readUtf8 (IO.FS.readBinFile path)
    pure (text.mapError (.unreadable path))

end SpanRegex

open SpanRegex in
def main (args : List String) : IO UInt32 := do
  match ← CommandLine.program readText (do (← IO.getStdout).isTty) turnsOfALifetime args with
  | some outcome => finish outcome
  | none => finish (.failure "failed to search" "an attempt took too long")
