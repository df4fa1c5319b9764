import Phrasebook.Script.Semicolon
import Phrasebook.Script.Tree

/-!
# Phrasebook — reading positions

A cursor is a position in a script: the unread text and its line. Between two tokens it collects
the comments it passes, so that the construct that goes on behind them can take them in. Whether a
semicolon is left out is decided on the unread text right behind the last token, which the cursor
keeps as its *gap*.

Comments in page syntax, from `<!--` or `-->` to the end of the line, are read only where no
operand has just ended.

* `Cursor.skip` — passes white space and comments;
* `Cursor.omits` — whether a semicolon is left out here;
* `Cursor.errorLine` — the line to report for a text that cannot go on from here.
-/

namespace Phrasebook.Script

/-- A position in a script. -/
structure Cursor where
  /-- The unread text. -/
  rest : List Char
  /-- The line of the unread text. -/
  line : Nat
  /-- What was unread right behind the last token. -/
  gap : List Char
  /-- The comments passed since the last token, the last one first. -/
  pending : List Tree := []
  /-- Whether the space before the next token has been passed. -/
  settled : Bool := false
  /-- Whether the last token closed the block of a statement. -/
  afterBlock : Bool := false
  /-- The line on which the current statement of the program starts. -/
  anchor : Nat

namespace Cursor

/-- The start of a text. -/
def start (text : List Char) : Cursor := { rest := text, line := 1, gap := text, anchor := 1 }

/-- Whether a semicolon is left out behind the last token. -/
def omits (c : Cursor) (operand : Bool) : Bool := Semicolon.omitted operand c.gap

/-- The line to report when the text cannot go on: that of the next token, and at the end of the
text that of the unfinished statement. -/
def errorLine (c : Cursor) : Nat := if c.rest.isEmpty then c.anchor else c.line

/-- What stands between two tokens. -/
inductive Space where
  /-- White space. -/
  | blank
  /-- A comment to the end of its line; the characters read are kept in reverse. -/
  | note (page : Bool) (read : List Char) (line : Nat)
  /-- Behind the slash that starts a block comment, with the text from its start. -/
  | opening (line : Nat) (whole : List Char)
  /-- A block comment, the text from its start, and whether a star was read last. -/
  | block (read : List Char) (line : Nat) (whole : List Char) (star : Bool)

/-- A comment node. -/
def commentNode (page : Bool) (read : List Char) (line : Nat) : Tree :=
  .node { kind := if page then .htmlComment else .comment, line, spelling := read.reverse } []

/-- The line behind a character. -/
def lineAfter (c : Char) (line : Nat) : Nat := if c == '\n' then line + 1 else line

/-- Whether a comment in page syntax starts with the given characters. -/
def startsPageComment (c : Char) (rest : List Char) : Bool :=
  (c == '<' && ['!', '-', '-'].isPrefixOf rest) || (c == '-' && ['-', '>'].isPrefixOf rest)

/-- Passes white space and comments. The result is the rest of the text, its line and the comments
found, the last one first; a block comment without an end is an error at its start. -/
def skipFrom (page : Bool) : Space → Nat → List Tree → List Char →
    Except (List Char × Nat) (List Char × Nat × List Tree)
  | .blank, line, found, [] => .ok ([], line, found)
  | .note isPage read start, line, found, [] =>
    .ok ([], line, commentNode isPage read start :: found)
  | .opening start whole, _, _, [] => .error (whole, start)
  | .block _ start whole _, _, _, [] => .error (whole, start)
  | .blank, line, found, c :: rest =>
    if isGap c then skipFrom page .blank (lineAfter c line) found rest
    else if c == '/' && rest.head? == some '/' then
      skipFrom page (.note false [c] line) line found rest
    else if c == '/' && rest.head? == some '*' then
      skipFrom page (.opening line (c :: rest)) line found rest
    else if page && startsPageComment c rest then
      skipFrom page (.note true [c] line) line found rest
    else .ok (c :: rest, line, found)
  | .note isPage read start, line, found, c :: rest =>
    if endsLine c || (c == '\r' && !isPage) then
      skipFrom page .blank (lineAfter c line) (commentNode isPage read start :: found) rest
    else if c == '\x00' then .ok (c :: rest, line, commentNode isPage read start :: found)
    else skipFrom page (.note isPage (c :: read) start) line found rest
  | .opening start whole, line, found, _ :: rest =>
    skipFrom page (.block ['*', '/'] start whole false) line found rest
  | .block read start whole star, line, found, c :: rest =>
    if c == '\x00' then .error (whole, start)
    else if star && c == '/' then
      skipFrom page .blank line (commentNode false (c :: read) start :: found) rest
    else skipFrom page (.block (c :: read) start whole (c == '*')) (lineAfter c line) found rest

/-- Passes the white space and the comments before the next token, once. The flag says that
comments in page syntax are read here. -/
def skip (c : Cursor) (page : Bool) : Except Cursor Cursor :=
  if c.settled then .ok c
  else
    let page := page && (!c.afterBlock || c.omits false)
    match skipFrom page .blank c.line c.pending c.rest with
    | .ok (rest, line, pending) => .ok { c with rest, line, pending, settled := true }
    | .error (rest, line) => .error { c with rest, line }

/-- The text from the next token on, as far as it can be told in advance. -/
def upcoming (text : List Char) : List Char :=
  match skipFrom false .blank 1 [] text with
  | .ok (rest, _, _) => rest
  | .error (rest, _) => rest

/-- The position behind a token. -/
def behind (c : Cursor) (taken rest : List Char) : Cursor :=
  { c with
    rest
    gap := rest
    line := c.line + lineFeeds taken
    pending := []
    settled := false
    afterBlock := false }

end Cursor

end Phrasebook.Script
