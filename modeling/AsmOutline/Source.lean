import AsmOutline.Text.Bytes

/-! # Source texts and edits

A source is a list of lines without their terminators. An edit names the lines it
touched in the new source and by how much the number of lines grew.
-/
namespace AsmOutline
open Text

structure Source where
  lines : List Text
  deriving DecidableEq, Repr, Inhabited

namespace Source

def dropReturn (line : Text) : Text :=
  if line.getLast? = some '\r' then line.dropLast else line

/-- The pieces between line feeds, each without one carriage return at its end. -/
def splitFeeds : Text → List Text
  | [] => [[]]
  | c :: cs =>
    if c = '\n' then [] :: splitFeeds cs
    else
      match splitFeeds cs with
      | [] => [[c]]
      | piece :: pieces => (c :: piece) :: pieces

/-- A last piece that is empty is the end of the line before it, if there is one. -/
def splitLines (text : Text) : List Text :=
  let pieces := (splitFeeds text).map dropReturn
  if 1 < pieces.length ∧ pieces.getLast? = some [] then pieces.dropLast else pieces

def ofText (text : Text) : Source :=
  ⟨splitLines text⟩

def lineCount (source : Source) : Nat :=
  source.lines.length

/-- Past the end every line is empty. -/
def line (source : Source) (n : Nat) : Text :=
  source.lines.getD n []

def slice (source : Source) (n start stop : Nat) : Text :=
  (splitFloor (splitFloor (source.line n) stop).1 start).2

def setLine (source : Source) (n : Nat) (text : Text) : Source :=
  ⟨source.lines.set n text⟩

def replaceLines (source : Source) (range : Span) (lines : List Text) : Source :=
  ⟨source.lines.take range.start ++ lines ++ source.lines.drop (max range.start range.stop)⟩

end Source

structure Edit where
  changed : Span
  growth : Int
  source : Source
  deriving DecidableEq, Repr

namespace Edit

def inPlace (changed : Span) (source : Source) : Edit :=
  ⟨changed, 0, source⟩

def summary (edit : Edit) : String :=
  s!"EditNotification \x7b changed_lines: {edit.changed.start}..{edit.changed.stop}, " ++
    s!"line_count_delta: {edit.growth}, line_count: {edit.source.lineCount} \x7d"

end Edit
end AsmOutline
