import Phrasebook.Script.Rule

/-!
# Phrasebook — templates, regular expressions and items

Literals that are more than one token, and lists of items in brackets.
-/

namespace Phrasebook.Script.Grammar

open Rule

/-- The mark of an arrow function. -/
def arrow : List Char := ['=', '>']

/-- The mark of a spread element or a rest pattern. -/
def ellipsis : List Char := ['.', '.', '.']

/-- A spread element. -/
def spread : Rule (List Tree) :=
  construct .spreadElement (mark ellipsis ++ part (.expression .inner))

/-- Items up to a closing bracket, which is included. Items may be left out between commas. -/
def elements (close : Char) (fresh : Bool) : Rule (List Tree) := do
  let rest ← if fresh then look else lookBehind
  match rest with
  | [] => refuse
  | c :: _ =>
    if c == close then leafOf .token 1
    else if c == ',' then leafOf .token 1 ++ call (.elements close true)
    else if fresh then
      (if ellipsis.isPrefixOf rest then spread else part (.expression .inner)) ++
        call (.elements close false)
    else refuse

/-- The arguments of a call. -/
def arguments : Rule (List Tree) :=
  construct .arguments (mark ['('] ++ call (.elements ')' true))

/-- The spelling of a template without substitutions. -/
def templateSpelling (parts : List Tree) : List Char :=
  if parts.any (·.kind == .templateSubstitution) then [] else parts.flatMap Tree.spelling

/-- A template, from its opening mark on. -/
def template : Rule (List Tree) := do
  let line := (← cursor).line
  let parts ← leafOf .token 1 ++ call (.templateParts line)
  return [.node { kind := .templateString, line, spelling := templateSpelling parts } parts]

/-- The parts of a template that starts on the given line, up to its closing mark. Space between
the parts belongs to the text. -/
def templateParts (line : Nat) : Rule (List Tree) := do
  let here ← cursor
  match here.rest with
  | '\x60' :: _ => leafOf .token 1
  | '\\' :: rest =>
    match Lexeme.escapeLength? rest with
    | some length => leafOf .escapeSequence (length + 1) ++ call (.templateParts line)
    | none => refuse
  | '$' :: '{' :: _ =>
    let inside ← leafOf .token 2 ++ part (.expressions .inner) ++ mark ['}']
    return [Tree.of .templateSubstitution here.line inside] ++ (← call (.templateParts line))
  | text =>
    let (taken, rest) := Lexeme.fragment text
    if taken.isEmpty then refuseFrom line
    else leaf .stringFragment taken rest ++ call (.templateParts line)

/-- The flags of a regular expression, directly behind its closing slash. -/
def regexFlags : Rule (List Tree) := do
  let rest := (← cursor).rest
  let flags := rest.takeWhile Char.isLower
  if flags.isEmpty then return [] else leaf .regexFlags flags (rest.drop flags.length)

/-- A regular expression. -/
def regex : Rule (List Tree) :=
  construct .regexLiteral do
    let opening ← leafOf .token 1
    let pattern ← scanned .regexPattern Lexeme.regex
    let closing ← leafOf .token 1 ++ regexFlags
    if pattern.all (·.spelling.isEmpty) then refuse else return opening ++ pattern ++ closing

end Phrasebook.Script.Grammar
