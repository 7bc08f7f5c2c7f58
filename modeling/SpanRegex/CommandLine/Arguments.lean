import SpanRegex.Pattern.Options

/-! # Command-line arguments

* `Switch`, `Parameter`: the options without and with a value.
* `Given`: one thing that the arguments give; `Given.read?` reads all of them.
* `Arguments`: what the arguments ask for; `Arguments.read?` has no answer for a wrong use.

Options stand anywhere among the positional arguments; `--` ends them. Short switches combine. The
value of a parameter follows an equals sign or is the next argument, which then starts with no
hyphen unless it is a hyphen alone. No option is given twice.
-/

namespace SpanRegex.CommandLine
set_option autoImplicit false

/-! ## Options -/

/-- An option without a value. -/
inductive Switch
  | ignoreCase
  | multiline
  | singleLine
  | extended
  | anchored
  | spans
  | dump
  | noColor
  deriving DecidableEq, Repr

def Switch.ofLetter? : Char → Option Switch
  | 'i' => some ignoreCase
  | 'm' => some multiline
  | 's' => some singleLine
  | 'x' => some extended
  | _ => none

def Switch.ofName? (name : String) : Option Switch :=
  [("ignore-case", ignoreCase), ("multiline", multiline), ("single-line", singleLine),
    ("extended", extended), ("anchored", anchored), ("spans", spans), ("dump", dump),
    ("no-color", noColor)].lookup name

/-- An option with a value. -/
inductive Parameter
  | schemeStart
  | back
  | stepLimit
  deriving DecidableEq, Repr

def Parameter.ofName? (name : String) : Option Parameter :=
  [("scheme-start", schemeStart), ("back", back), ("step-limit", stepLimit)].lookup name

/-- One thing that the arguments give. -/
inductive Given
  | switch (switch : Switch)
  | parameter (parameter : Parameter) (value : String)
  | positional (value : String)
  deriving DecidableEq, Repr

namespace Given

/-! ## Reading the arguments -/

/-- The argument can be the value of the parameter before it. -/
def isValue (arg : String) : Bool := arg.toList.head? != some '-' || arg == "-"

/-- The option whose name and value the characters after two hyphens give. -/
def long? (cs : List Char) : Option Given :=
  let name := String.ofList (cs.takeWhile (· != '='))
  match cs.dropWhile (· != '=') with
  | [] => (Switch.ofName? name).map switch
  | _ :: value => (Parameter.ofName? name).map fun p => parameter p (String.ofList value)

/-- The switches of combined letters. -/
def short? (letters : List Char) : Option (List Given) :=
  letters.mapM fun c => (Switch.ofLetter? c).map switch

/-- All that the arguments give, in order. -/
def read? : List String → Option (List Given)
  | [] => some []
  | arg :: args =>
    match arg.toList with
    | ['-', '-'] => some (args.map positional)
    | '-' :: '-' :: cs =>
      match Parameter.ofName? (String.ofList cs), args with
      | some p, value :: args =>
        if isValue value then (read? args).map (parameter p value :: ·) else none
      | some _, [] => none
      | none, args => do
        let option ← long? cs
        let rest ← read? args
        pure (option :: rest)
    | '-' :: c :: letters => do
      let switches ← short? (c :: letters)
      let rest ← read? args
      pure (switches ++ rest)
    | _ => (read? args).map (positional arg :: ·)

def positionals (given : List Given) : List String :=
  given.filterMap fun
    | positional value => some value
    | _ => none

def values (given : List Given) (p : Parameter) : List String :=
  given.filterMap fun
    | parameter q value => if q = p then some value else none
    | _ => none

def noneTwice : List Given → Bool
  | [] => true
  | switch s :: rest => !rest.contains (switch s) && noneTwice rest
  | parameter p _ :: rest => (values rest p).isEmpty && noneTwice rest
  | positional _ :: rest => noneTwice rest

end Given

/-! ## What is asked for -/

/-- What the arguments ask for. -/
structure Arguments where
  pattern : String
  /-- The file to search; standard input if there is none. -/
  file : Option String
  options : Pattern.Options
  /-- Only the start of each line is tried. -/
  anchored : Bool
  /-- Offsets are printed instead of lines. -/
  spans : Bool
  /-- The outline of the pattern is printed instead of a search. -/
  dump : Bool
  noColor : Bool
  schemeStart : Nat
  /-- The pattern whose match on a line cross references refer to. -/
  back : Option String
  stepLimit : Option Nat
  deriving DecidableEq, Repr

/-- A decimal number of 64 bits, with or without a plus sign. -/
def number? (s : String) : Option Nat :=
  let digits := match s.toList with
    | '+' :: cs => cs
    | cs => cs
  let n := digits.foldl (fun n c => n * 10 + (c.toNat - '0'.toNat)) 0
  if digits.isEmpty || !digits.all Char.isDigit || 18446744073709551616 ≤ n then none else some n

/-- The number that a parameter gives, or nothing if it is not given. -/
def optionalNumber? (given : List Given) (p : Parameter) : Option (Option Nat) :=
  match Given.values given p with
  | [] => some none
  | s :: _ => (number? s).map some

namespace Arguments

/-- Reads the arguments; a wrong use has no answer. -/
def read? (args : List String) : Option Arguments := do
  let given ← Given.read? args
  guard (Given.noneTwice given)
  let schemeStart ← optionalNumber? given .schemeStart
  let stepLimit ← optionalNumber? given .stepLimit
  let (pattern, file) ←
    match Given.positionals given with
    | [pattern] => some (pattern, none)
    | [pattern, file] => some (pattern, some file)
    | _ => none
  let has (s : Switch) : Bool := given.contains (.switch s)
  pure {
    pattern, file, stepLimit
    options := ⟨has .ignoreCase, has .multiline, has .singleLine, has .extended⟩
    anchored := has .anchored
    spans := has .spans
    dump := has .dump
    noColor := has .noColor
    schemeStart := schemeStart.getD 0
    back := (Given.values given .back).head? }

end Arguments

end SpanRegex.CommandLine
