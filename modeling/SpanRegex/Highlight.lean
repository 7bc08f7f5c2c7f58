import SpanRegex.Captures

/-! # Highlighting

* `Highlight.pieces`: a line cut into plain and matched pieces.
* `Marking`: what is written around a match; `Marking.brackets`, `Marking.boldRed`.
* `Marking.line`: a line with its matches marked.
* `Highlight.spanList`: the offsets of the matches of a line.
-/

namespace SpanRegex
set_option autoImplicit false

namespace Highlight

inductive Piece
  | plain (text : Text)
  | matched (text : Text)
  deriving DecidableEq

def Piece.text : Piece → Text
  | plain t => t
  | matched t => t

/-- The piece between two offsets, unless it is empty. -/
def pieceBetween (kind : Text → Piece) (line : Text) (start stop : Nat) : List Piece :=
  if start < stop then [kind (line.slice start stop)] else []

/-- The pieces of a line from `pos` on. A span begins where the one before it ends, if not later,
and ends with the line, if not earlier. -/
def piecesFrom (line : Text) (pos : Nat) : List Span → List Piece
  | [] => pieceBetween .plain line pos line.size
  | s :: spans =>
    let start := min (max s.start pos) line.size
    let stop := min (max s.stop start) line.size
    pieceBetween .plain line pos start ++ pieceBetween .matched line start stop ++
      piecesFrom line stop spans

/-- The pieces of a line whose spans are matches. -/
def pieces (line : Text) (spans : List Span) : List Piece := piecesFrom line 0 spans

def showSpan (s : Span) : String := toString s.start ++ "-" ++ toString s.stop

/-- The number of a line and the spans in it. -/
def spanList (lineNumber : Nat) (spans : List Span) : String :=
  toString lineNumber ++ ": " ++ " ".intercalate (spans.map showSpan)

end Highlight

/-- What is written around the matched pieces of a line. -/
structure Marking where
  before : String
  after : String
  deriving DecidableEq, Repr

namespace Marking

/-- Square brackets around each match. -/
def brackets : Marking := ⟨"[", "]"⟩

/-- Terminal codes for bold red around each match. -/
def boldRed : Marking := ⟨"\x1b[38;5;9m\x1b[1m", "\x1b[0m\x1b[0m"⟩

def piece (m : Marking) : Highlight.Piece → String
  | .plain t => t.toString
  | .matched t => m.before ++ t.toString ++ m.after

/-- A line with its matches marked, and the line feed after it. -/
def line (m : Marking) (line : Text) (spans : List Span) : String :=
  String.join ((Highlight.pieces line spans).map m.piece) ++ "\n"

end Marking

end SpanRegex
