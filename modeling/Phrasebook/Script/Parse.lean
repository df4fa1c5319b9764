import Phrasebook.Script.Grammar.Element
import Phrasebook.Script.Grammar.Statement

/-!
# Phrasebook — parsing scripts

* `Grammar.rules` — the rule of every goal;
* `Script.parse` — the concrete syntax tree of a text. Every text has one; that of a text outside the
  grammar holds an error.
-/

namespace Phrasebook.Script

/-- The rule of every goal. -/
def Grammar.rules : Goal → Rule (List Tree)
  | .program => program
  | .statements inCase => statements inCase
  | .statement => statement
  | .expressionStatement => expressionStatement
  | .block => block
  | .declaration => declaration
  | .declarators => declarators
  | .binding => binding
  | .condition => condition
  | .forIn => forIn
  | .forCounter => forCounter
  | .cases => cases
  | .members => members
  | .specifiers => specifiers
  | .decorators => decorators
  | .expressions site => expressions site
  | .moreExpressions site => moreExpressions site
  | .expression site => expression site
  | .binary site level => binary site level
  | .operators site level left => operators site level left
  | .operand site => operand site
  | .target site => target site
  | .constructor => constructed
  | .suffixes site calls left => suffixes site calls left
  | .arrowBody site => arrowBody site
  | .elements close fresh => elements close fresh
  | .properties fresh => properties fresh
  | .templateParts line => templateParts line
  | .element => element
  | .attributes => attributes
  | .elementChildren => elementChildren
  | .dotted left => dotted left

/-- A line that names the interpreter of the script, at its start. -/
def Grammar.interpreterLine : Rule (List Tree) := do
  let rest ← Rule.look
  if ['#', '!'].isPrefixOf rest then
    let line := rest.takeWhile (· != '\n')
    Rule.leaf .hashBangLine line (rest.drop line.length)
  else return []

/-- A whole script. -/
def Grammar.script : Rule (List Tree) := interpreterLine ++ Rule.call .program

/-- The rounds in which the machine reads a text of the given length. Every character is left behind after a
few goals, each of which asks for a few more, so that a number of rounds in proportion to the length is enough
for every text (`Script.ended_run`). -/
def rounds (length : Nat) : Nat := 64 * (length + 1)

/-- The tree of a text. Its line is that of the first token or comment, or of the end of a text that
has none. No text leaves the machine running. -/
def parse (text : List Char) : Tree :=
  match Machine.run Grammar.rules (rounds text.length) (Grammar.script (Cursor.start text)) with
  | .found children =>
    let line :=
      match children with
      | t :: _ => t.line
      | [] => 1 + lineFeeds text
    Tree.of .program line children
  | .refused line => Tree.of .program 1 [Tree.of .error line []]
  | .running s => Tree.of .program 1 [Tree.of .error ((s.refusal.map (·.line)).getD 1) []]

end Phrasebook.Script
