import SpanRegex.CommandLine.Folder
import SpanRegex.CommandLine.Search

/-! # A run of the program

* `program`: what the program does with its arguments, in surroundings that hold the texts.
* `run`: the outcome for a folder and the text of standard input, where nothing is shown on a terminal.
-/

namespace SpanRegex.CommandLine
set_option autoImplicit false

/-- What the program does with its arguments. `read` answers the text of a file, or of standard input if no
file is named, and `terminal` whether the output is shown on a terminal. -/
def program {m : Type → Type} [Monad m] (read : Option String → m (Except Outcome String)) (terminal : m Bool)
    (fuel : Nat) (arguments : List String) : m (Option Outcome) :=
  match Arguments.read? arguments with
  | none => pure (some .usage)
  | some a =>
    match Job.prepare a with
    | .inl outcome => pure (some outcome)
    | .inr job => do
      match ← read a.file with
      | .error outcome => pure (some outcome)
      | .ok text =>
        let marking := if (← terminal) && !a.noColor then Marking.boldRed else Marking.brackets
        pure (job.report fuel marking text)

/-- The text to search: a file of the folder, or standard input if no file is named. -/
def source (folder : Folder) (input : String) : Option String → Except Outcome String
  | none => .ok input
  | some path => (folder.read path).mapError fun fault => .unreadable path fault.message

def run (fuel : Nat) (folder : Folder) (input : String) (arguments : List String) : Option Outcome :=
  Id.run (program (fun file => pure (source folder input file)) (pure false) fuel arguments)

end SpanRegex.CommandLine
