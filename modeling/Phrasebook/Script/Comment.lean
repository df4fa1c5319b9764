import Phrasebook.Text.Blank

/-!
# Phrasebook — the words of a comment

A comment is shown to translators line by line, without its delimiters, without the stars that
decorate the left margin of a block, and without blanks around a line. Lines that end up empty
are dropped.
-/

namespace Phrasebook.Comment

/-- A line of a block comment without blanks and stars at its left and blanks at its right. -/
def trimLine (line : Text) : Text :=
  Text.strip (line.strip.dropWhile (·.is '*'))

/-- The lines of a comment. A comment up to the end of its line gives at most one. -/
def lines (comment : Text) : List Text :=
  if ("//" : Text).isPrefixOf comment then
    [Text.strip (comment.drop 2)].filter (!·.isEmpty)
  else
    let inside :=
      if ("/*" : Text).isPrefixOf comment then (comment.drop 2).take (comment.length - 4)
      else comment
    ((Text.lines inside).map trimLine).filter (!·.isEmpty)

end Phrasebook.Comment
