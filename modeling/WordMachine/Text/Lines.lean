import WordMachine.Text.Blank

/-!
# Lines and words of a text

A physical line ends at a line feed, at a carriage return, or at the two
together; no other character ends a line.  The words of a line are its
maximal runs of characters that are not blank.
-/

namespace WordMachine

namespace Text

/--
Split a text into lines.  `finished` holds the complete lines and `current`
the characters of the line being read, the latest first.
-/
def linesFrom (finished : Array (List Char)) (current : List Char) :
    List Char → Array (List Char)
  | [] => if current.isEmpty then finished else finished.push current.reverse
  | '\r' :: '\n' :: rest => linesFrom (finished.push current.reverse) [] rest
  | character :: rest =>
      if character = '\n' ∨ character = '\r' then
        linesFrom (finished.push current.reverse) [] rest
      else
        linesFrom finished (character :: current) rest

/-- The physical lines of a text, without what ends them. -/
def lines (text : List Char) : List (List Char) :=
  (linesFrom #[] [] text).toList

/-- Add a run that has been read in reverse, unless it is empty. -/
def finishRun (finished : Array String) (current : List Char) : Array String :=
  if current.isEmpty then finished else finished.push (String.ofList current.reverse)

/--
Split a text into the maximal runs of characters that are not separators.
`finished` holds the complete runs and `current` the characters of the run
being read, the latest first.
-/
def runsFrom (isSeparator : Char → Bool) (finished : Array String) (current : List Char) :
    List Char → Array String
  | [] => finishRun finished current
  | character :: rest =>
      if isSeparator character then
        runsFrom isSeparator (finishRun finished current) [] rest
      else
        runsFrom isSeparator finished (character :: current) rest

/-- The maximal runs of characters that are not separators. -/
def runs (isSeparator : Char → Bool) (text : List Char) : List String :=
  (runsFrom isSeparator #[] [] text).toList

/-- The words of a line. -/
def words (line : List Char) : List String :=
  runs isBlank line

end Text

end WordMachine
