import SpanRegex.CommandLine.Arguments
import SpanRegex.Highlight
import SpanRegex.Pattern.Outline
import SpanRegex.Regex

/-! # Searching the lines of a text

* `Outcome`: what a run of the program leaves: its exit code and its output.
* `Job`: a search that is ready but for the text; `Job.prepare` makes one of the arguments.
* `linesOf`: the lines of a text.
* `Job.line`: what is printed for one line; `Job.report`: the outcome of a search.
-/

namespace SpanRegex.CommandLine
set_option autoImplicit false

/-! ## Outcomes -/

/-- The exit code and the output of a run. -/
structure Outcome where
  code : Nat
  out : String := ""
  err : String := ""
  deriving DecidableEq, Repr

namespace Outcome

/-- A failure of the program: what it was doing, and why that failed. -/
def failure (doing cause : String) : Outcome :=
  { code := 1, err := "Error: " ++ doing ++ "\n\nCaused by:\n    " ++ cause ++ "\n" }

/-- A wrong use of the command line. -/
def usage : Outcome :=
  { code := 2, err := "usage: [options] PATTERN [FILE]\n" }

def unreadable (name cause : String) : Outcome := failure ("failed to read " ++ name) cause

end Outcome

/-! ## Preparing a search -/

/-- A search that is ready but for the text. -/
structure Job where
  arguments : Arguments
  regex : Regex
  /-- The regex whose matches cross references refer to. -/
  back : Option Regex

namespace Job

/-- Compiles the patterns of the arguments; a search that needs no text is over at once. -/
def prepare (a : Arguments) : Outcome ⊕ Job :=
  match Regex.ofString a.options a.pattern with
  | .error e => .inl (.failure ("invalid pattern " ++ Quoted.string a.pattern) e.message)
  | .ok regex =>
    if a.dump then .inl { code := 0, out := regex.pattern.outline }
    else
      let regex := ⟨regex.matcher.setLimit a.stepLimit⟩
      match a.back with
      | none => .inr ⟨a, regex, none⟩
      | some p =>
        match Regex.ofString a.options p with
        | .error e => .inl (.failure ("invalid back pattern " ++ Quoted.string p) e.message)
        | .ok back => .inr ⟨a, regex, some back⟩

/-! ## Lines -/

/-- The line that has been read, latest character first, at a line feed: a carriage return before
the line feed is no part of the line. -/
def endLine : List Char → List Char
  | '\r' :: cs => cs.reverse
  | cs => cs.reverse

/-- The lines of the characters after those of an unfinished line, latest first. -/
def linesFrom (unfinished : List Char) : List Char → List (List Char)
  | [] => if unfinished.isEmpty then [] else [unfinished.reverse]
  | '\n' :: cs => endLine unfinished :: linesFrom [] cs
  | c :: cs => linesFrom (c :: unfinished) cs

def linesOf (text : String) : List (List Char) := linesFrom [] text.toList

/-- Looks for the back pattern in a line: its match is attached to the regex, and no match is if
there is none. -/
def attachBack (j : Job) (fuel : Nat) (line : Text) : Option Job :=
  match j.back with
  | none => some j
  | some back =>
    match back.find fuel line 0 with
    | none => none
    | some (some _, back) =>
      some { j with regex := j.regex.attachFrom back line, back := some back }
    | some (none, back) => some { j with regex := ⟨j.regex.matcher.detach⟩, back := some back }

/-- The query for the matches of a line from an offset on. -/
def query (a : Arguments) (line : Text) (start : Nat) : Query :=
  { text := line, start, schemeStart := a.schemeStart,
    mode := if a.anchored then .anchored else .scan }

def most (a : Arguments) (line : Text) : Nat := if a.anchored then 1 else line.size + 1

/-- What is printed for a line with these matches. -/
def render (a : Arguments) (marking : Marking) (number : Nat) (line : Text) (spans : List Span) :
    String :=
  if spans.isEmpty then ""
  else if a.spans then Highlight.spanList number spans ++ "\n"
  else marking.line line spans

/-- What is printed for a line, and the job for the next one. -/
def line (j : Job) (fuel : Nat) (marking : Marking) (number : Nat) (line : Text) :
    Option (String × Job) :=
  match j.attachBack fuel line with
  | none => none
  | some j =>
    match Regex.collect (query j.arguments line) fuel (most j.arguments line) 0 j.regex with
    | none => none
    | some (found, regex) =>
      some (render j.arguments marking number line (found.map Match.span), { j with regex })

def linesOutput (j : Job) (fuel : Nat) (marking : Marking) (number : Nat) :
    List (List Char) → Option (List String)
  | [] => some []
  | cs :: rest =>
    match j.line fuel marking number (Text.encode cs).toArray with
    | none => none
    | some (printed, j) =>
      match j.linesOutput fuel marking (number + 1) rest with
      | none => none
      | some more => some (printed :: more)

/-- The outcome of a search of the text. -/
def report (j : Job) (fuel : Nat) (marking : Marking) (text : String) : Option Outcome :=
  (j.linesOutput fuel marking 1 (linesOf text)).map fun printed =>
    { code := 0, out := String.join printed }

end Job

end SpanRegex.CommandLine
