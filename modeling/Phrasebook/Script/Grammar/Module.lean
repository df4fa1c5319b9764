import Phrasebook.Script.Grammar.Function

/-!
# Phrasebook — imports and exports

What a script takes from other scripts and gives to them.
-/

namespace Phrasebook.Script.Grammar

open Rule

/-- A string literal, with the comments before it. -/
def stringNode : Rule (List Tree) := do
  let before ← extras
  match (← cursor).rest with
  | '\x22' :: _ => return before ++ (← scanned .stringLiteral Lexeme.string)
  | '\x27' :: _ => return before ++ (← scanned .stringLiteral Lexeme.string)
  | _ => refuse

/-- Whether a string literal comes next. -/
def nextString (rest : List Char) : Bool := nextIs '\x22' rest || nextIs '\x27' rest

/-- The script that names are taken from. -/
def fromClause : Rule (List Tree) := keyword "from" ++ stringNode

/-- The name of something exported: a word, a string, or the word `default`. -/
def exportedName : Rule (List Tree) := do
  let rest ← look
  if nextString rest then stringNode
  else if nextWord "default" rest then keyword "default"
  else variableName .identifier

/-- Another name, if one is given. -/
def renamed (name : Rule (List Tree)) : Rule (List Tree) :=
  whenNext (nextWord "as") (keyword "as" ++ name)

/-- A name that is imported or exported, of the given kind. -/
def specifier (kind : Kind) : Rule (List Tree) :=
  construct kind (exportedName ++ renamed exportedName)

/-- The names between braces, with the closing brace. Imports and exports are told apart by the
node around them. -/
def specifiers : Rule (List Tree) := do
  match ← look with
  | '}' :: _ => leafOf .token 1
  | ',' :: _ => leafOf .token 1 ++ call .specifiers
  | _ => specifier .exportSpecifier ++ call .specifiers

/-- Whether names stand between single commas; one comma may come last. -/
def wellSeparated (found : List Tree) : Bool :=
  match splitLast found with
  | some (items, _) =>
    Tree.separated true true items || items.all (fun t => t.kind.isExtra || !t.kind.isNamed) &&
      (items.filter (!·.kind.isNamed)).length ≤ 1
  | none => false

/-- Names in braces. -/
def names (kind item : Kind) : Rule (List Tree) :=
  construct kind do
    let opening ← mark ['{']
    let found ← call .specifiers
    if wellSeparated found then
      return opening ++ found.map fun t =>
        if t.kind == .exportSpecifier then t.withKind item else t
    else refuse

/-- All names of a script under one name. -/
def namespaceImport : Rule (List Tree) :=
  construct .namespaceImport (mark ['*'] ++ keyword "as" ++ variableName .identifier)

/-- What is imported besides a default. -/
def importedNames : Rule (List Tree) := do
  if nextIs '*' (← look) then namespaceImport else names .namedImports .importSpecifier

/-- What is imported. -/
def importClause : Rule (List Tree) :=
  construct .importClause do
    let rest ← look
    if nextIs '*' rest || nextIs '{' rest then importedNames
    else variableName .identifier ++ whenNext (nextIs ',') (mark [','] ++ importedNames)

/-- Attributes of an import, if they stand on the same line. -/
def importAttribute : Rule (List Tree) := do
  if ← omits false then return []
  else if nextWord "with" (← lookBehind) then
    construct .importAttribute
      (keyword "with" ++ construct .objectLiteral (mark ['{'] ++ call (.properties true)))
  else return []

/-- An import. -/
def importStatement : Rule (List Tree) :=
  construct .importStatement do
    let head ← keyword "import"
    let source ← if nextString (← look) then stringNode else importClause ++ fromClause
    let rest ← importAttribute ++ semicolon false
    return head ++ source ++ rest

/-- Whether a function, a class or a variable is declared. -/
def startsDeclaration (rest : List Char) : Bool :=
  let (word, after) := Lexeme.name rest
  let next := Cursor.upcoming after
  word == "var".toList || word == "let".toList || word == "const".toList ||
    word == "function".toList || word == "class".toList || nextIs '@' rest ||
    (word == "async".toList && nextWord "function" next)

/-- Whether a function or class with a name is declared. -/
def startsNamed (rest : List Char) : Bool :=
  let (word, after) := Lexeme.name rest
  let next := Cursor.upcoming after
  if word == "class".toList then Lexeme.startsVariable next
  else if word == "function".toList then
    let behind := if nextIs '*' next then Cursor.upcoming (next.drop 1) else next
    Lexeme.startsVariable behind
  else false

/-- Whether a function or class with a name is declared, possibly an asynchronous one. -/
def startsNamedDeclaration (rest : List Char) : Bool :=
  let (word, after) := Lexeme.name rest
  if word == "async".toList then
    let next := Cursor.upcoming after
    !Semicolon.omitted true after && nextWord "function" next && startsNamed next
  else startsNamed rest

/-- What is exported as default: a declaration with a name, or a value. -/
def exportDefault : Rule (List Tree) := do
  let head ← keyword "default"
  let rest ← look
  if startsNamedDeclaration rest || nextIs '@' rest then return head ++ (← part .declaration)
  else
    let value ← part (.expression .outer) ++ semicolon true
    return head ++ value

/-- What is exported, behind the word `export`. -/
def exported : Rule (List Tree) := do
  let rest ← look
  if nextIs '*' rest then
    let next := Cursor.upcoming (rest.drop 1)
    let all :=
      if nextWord "as" next then
        construct .namespaceExport (mark ['*'] ++ keyword "as" ++ exportedName)
      else mark ['*']
    all ++ fromClause ++ semicolon false
  else if nextIs '{' rest then
    let clause ← names .exportClause .exportSpecifier
    let source ←
      if ← omits false then pure []
      else if nextWord "from" (← lookBehind) then fromClause
      else pure []
    return clause ++ source ++ (← semicolon false)
  else if nextWord "default" rest then exportDefault
  else if startsDeclaration rest then part .declaration
  else refuse

/-- An export behind its decorators. -/
def exportStatement (line : Nat) (marks : List Tree) : Rule (List Tree) := do
  let rest ← keyword "export" ++ exported
  return [Tree.of .exportStatement line (marks ++ rest)]

end Phrasebook.Script.Grammar
