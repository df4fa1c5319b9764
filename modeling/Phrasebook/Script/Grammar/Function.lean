import Phrasebook.Script.Grammar.Literal
import Phrasebook.Script.Pattern

/-!
# Phrasebook — functions, objects and classes

Functions and everything that can hold methods: object literals and classes. The words `static`,
`async`, `get` and `set` modify a method only if a property name follows; otherwise they are property
names themselves.
-/

namespace Phrasebook.Script.Grammar

open Rule

/-! ## Functions -/

/-- Formal parameters. -/
def parameters : Rule (List Tree) := do
  let before ← extras
  let line := (← cursor).line
  let opening ← mark ['(']
  let found ← call (.elements ')' true)
  match splitLast found with
  | none => refuse
  | some (items, closing) =>
    match Tree.toParameters? line opening items [closing] with
    | some t => return before ++ [t]
    | none => refuse

/-- Whether the next token starts with the character. -/
def nextIs (c : Char) (rest : List Char) : Bool := rest.head? == some c

/-- Whether the next token is the word. -/
def nextWord (word : String) (rest : List Char) : Bool := (Lexeme.name rest).1 == word.toList

/-- A function, asynchronous or a generator if marked so. Where a function is declared it has a
name. -/
def functionNode (declares : Bool) : Rule (List Tree) := do
  let before ← extras
  let line := (← cursor).line
  let head ← whenNext (nextWord "async") (keyword "async") ++ keyword "function"
  let star ← whenNext (nextIs '*') (mark ['*'])
  let name ← whenNext Lexeme.startsVariable (variableName .identifier)
  let rest ← parameters ++ part .block
  let kind :=
    match declares, star.isEmpty with
    | true, true => Kind.functionDeclaration
    | true, false => .generatorFunctionDeclaration
    | false, true => .functionExpression
    | false, false => .generatorFunction
  return before ++ [Tree.of kind line (head ++ star ++ name ++ rest)]

/-- Whether a text that starts with an opening brace goes on like a label or a property. -/
def startsLabelled (rest : List Char) : Bool :=
  let inside := Cursor.upcoming (rest.drop 1)
  Lexeme.startsVariable inside && nextIs ':' (Cursor.upcoming (Lexeme.name inside).2)

/-- The body of an arrow function. Braces hold a block, or an object where they cannot be a block or
where their contents start with a property. -/
def arrowBody (site : Site) : Rule (List Tree) := do
  let rest ← look
  if nextIs '{' rest then
    if startsLabelled rest then choose (.expression site) .block
    else choose .block (.expression site)
  else call (.expression site)

/-! ## Properties -/

/-- A private name. -/
def privateName : Rule (List Tree) := do
  match ← look with
  | '#' :: rest =>
    let (word, after) := Lexeme.name rest
    if word.isEmpty then refuse else leaf .privatePropertyIdentifier ('#' :: word) after
  | _ => refuse

/-- The name of a property. -/
def propertyName : Rule (List Tree) := do
  let rest ← look
  match rest with
  | [] => refuse
  | c :: more =>
    if c == '\x22' || c == '\x27' then
      let before ← extras
      return before ++ (← scanned .stringLiteral Lexeme.string)
    else if c.isDigit || (c == '.' && more.head?.any Char.isDigit) then
      leafOf .numberLiteral (Lexeme.numberLength rest)
    else if c == '[' then
      construct .computedPropertyName (mark ['['] ++ part (.expression .inner) ++ mark [']'])
    else if c == '#' then privateName
    else
      let (word, after) := Lexeme.name rest
      if word.isEmpty then refuse else leaf .propertyIdentifier word after

/-- Whether a word modifies the property name behind it. In a class a line end behind the word may
make it a field. -/
def modifies (inClass : Bool) (word after : List Char) : Bool :=
  if inClass && Semicolon.omitted false after then false
  else
    match Cursor.upcoming after with
    | [] => false
    | c :: _ =>
      if c == '*' then word == "async".toList
      else isNameStart c || c.isDigit || c == '\\' || c == '\x22' || c == '\x27' || c == '[' || c == '#'

/-- One of the given words, if it modifies the property name behind it. -/
def modifier (inClass : Bool) (words : List String) : Rule (List Tree) := do
  let (word, after) := Lexeme.name (← look)
  if words.any (·.toList == word) && modifies inClass word after then leaf .token word after
  else return []

/-- The words and marks before the name of a method. -/
def modifiers (inClass : Bool) : Rule (List Tree) :=
  modifier inClass ["static"] ++ modifier inClass ["async"] ++
    whenNext (nextIs '*') (mark ['*']) ++ modifier inClass ["get", "set"]

/-- A name by which a property and its value can be given at once. -/
def isShorthand (names : List Tree) : Bool :=
  match splitLast names with
  | some (_, name) => name.kind == .propertyIdentifier && !Lexeme.isReserved name.spelling
  | none => false

/-- Gives the last of the trees another kind. -/
def lastAs (kind : Kind) (trees : List Tree) : List Tree :=
  match splitLast trees with
  | some (before, t) => before ++ [t.withKind kind]
  | none => trees

/-- A property of an object literal. -/
def property : Rule (List Tree) := do
  let before ← extras
  let line := (← cursor).line
  let head ← call .decorators ++ modifiers false
  let name ← propertyName
  match ← look with
  | '(' :: _ =>
    let rest ← parameters ++ part .block
    return before ++ [Tree.of .methodDefinition line (head ++ name ++ rest)]
  | ':' :: _ =>
    let rest ← mark [':'] ++ part (.expression .inner)
    if head.isEmpty then return before ++ [Tree.of .pair line (name ++ rest)] else refuse
  | '=' :: rest =>
    if head.isEmpty && isShorthand name && !rest.head?.any (fun c => c == '=' || c == '>') then
      let value ← mark ['='] ++ part (.expression .inner)
      let name := lastAs .shorthandPropertyIdentifierPattern name
      return before ++ [Tree.of .error line (name ++ value)]
    else refuse
  | _ =>
    if head.isEmpty && isShorthand name then
      return before ++ lastAs .shorthandPropertyIdentifier name
    else refuse

/-- Properties up to the closing brace, which is included. -/
def properties (fresh : Bool) : Rule (List Tree) := do
  let rest ← look
  match rest with
  | [] => refuse
  | c :: _ =>
    if c == '}' then leafOf .token 1
    else if c == ',' then leafOf .token 1 ++ call (.properties true)
    else if fresh then
      (if ellipsis.isPrefixOf rest then spread else property) ++ call (.properties false)
    else refuse

/-! ## Classes -/

/-- Names joined by dots. -/
def dotted (left : Tree) : Rule (List Tree) := do
  if nextIs '.' (← lookBehind) then
    let dot ← leafOf .token 1
    let (word, after) := Lexeme.name (← look)
    if word.isEmpty then refuse
    else
      let name ← leaf .propertyIdentifier word after
      call (.dotted
        (Tree.of .memberExpression left.line
          ([left.withRole .object] ++ dot ++ inRole .property name)))
  else return [left]

/-- A decorator: a dotted name, or a call of one. -/
def decorator : Rule (List Tree) :=
  construct .decorator do
    let sign ← mark ['@']
    let before ← extras
    let name ← one (← dotted (← one (← variableName .identifier)))
    if nextIs '(' (← lookBehind) then
      let given ← arguments
      let made := Tree.of .callExpression name.line
        ([name.withRole .function] ++ inRole .arguments given)
      return sign ++ before ++ [made]
    else return sign ++ before ++ [name]

/-- Decorators, if there are any. -/
def decorators : Rule (List Tree) :=
  whenNext (nextIs '@') (decorator ++ call .decorators)

/-- The value of a field, if it has one. -/
def fieldValue : Rule (List Tree) := do
  if ← omits false then return []
  else if nextIs '=' (← lookBehind) then mark ['='] ++ part (.expression .outer)
  else return []

/-- A member of a class, and the semicolon behind a field. -/
def member : Rule (List Tree) := do
  let before ← extras
  let line := (← cursor).line
  let marks ← call .decorators
  let (word, after) := Lexeme.name (← look)
  if word == "static".toList && nextIs '{' (Cursor.upcoming after) then
    let rest ← leaf .token word after ++ part .block
    return before ++ [Tree.of .classStaticBlock line (marks ++ rest)]
  else
    let head ← modifiers true
    let name ← propertyName
    if !(← omits false) && nextIs '(' (← lookBehind) then
      let rest ← parameters ++ part .block
      return before ++ [Tree.of .methodDefinition line (marks ++ head ++ name ++ rest)]
    else
      let value ← fieldValue
      let field := Tree.of .fieldDefinition line (marks ++ head ++ name ++ value)
      return before ++ [field] ++ (← semicolon (!value.isEmpty))

/-- Members up to the closing brace, which is included. -/
def members : Rule (List Tree) := do
  match ← look with
  | [] => refuse
  | c :: _ =>
    if c == '}' then leafOf .token 1
    else if c == ';' then leafOf .token 1 ++ call .members
    else member ++ call .members

/-- The parts of a class behind its decorators. -/
def classParts : Rule (List Tree) :=
  keyword "class" ++ whenNext Lexeme.startsVariable (variableName .identifier) ++
    whenNext (nextWord "extends")
      (construct .classHeritage (keyword "extends" ++ part (.expression .inner))) ++
    construct .classBody (mark ['{'] ++ call .members)

end Phrasebook.Script.Grammar
