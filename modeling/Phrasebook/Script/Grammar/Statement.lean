import Phrasebook.Script.Grammar.Expression
import Phrasebook.Script.Grammar.Module

/-!
# Phrasebook — statements

Statements and declarations. Braces at the start of a statement hold a block; they are read as an
object where they cannot be a block, or where their contents start like a property.
-/

namespace Phrasebook.Script.Grammar

open Rule

/-! ## Blocks and declarations -/

/-- A block. -/
def block : Rule (List Tree) := do
  let found ← construct .statementBlock (mark ['{'] ++ call (.statements false) ++ mark ['}'])
  closeBlock
  return found

/-- An expression in parentheses. -/
def condition : Rule (List Tree) :=
  construct .parenthesizedExpression (mark ['('] ++ part (.expressions .inner) ++ mark [')'])

/-- A name or pattern that is declared. -/
def binding : Rule (List Tree) := do
  let rest ← look
  if nextIs '{' rest || nextIs '[' rest then
    let literal ← one (← primary .inner)
    match literal.toPattern? with
    | some pattern => return [pattern]
    | none => refuse
  else variableName .identifier

/-- The value behind a declared name, if it has one. -/
def initializer (site : Site) : Rule (List Tree) := do
  if site.lineEnds && (← omits false) then return []
  else
    match Lexeme.operator? (← lookBehind) with
    | some (op, _) => if op == ['='] then mark ['='] ++ part (.expression site) else return []
    | none => return []

/-- Declared names with their values, separated by commas. -/
def declarators : Rule (List Tree) := do
  let before ← extras
  let line := (← cursor).line
  let name ← call .binding
  let value ← initializer .outer
  let found := before ++ [Tree.of .variableDeclarator line (name ++ value)]
  if ← omits (!value.isEmpty) then return found
  else if nextIs ',' (← lookBehind) then
    return found ++ (← leafOf .token 1 ++ call .declarators)
  else return found

/-- Whether the last of the declared names has a value. -/
def lastHasValue (found : List Tree) : Bool :=
  match splitLast found with
  | some (_, t) => t.children.any (·.kind == .token)
  | none => false

/-- A declaration of variables with one of the words `var`, `let` and `const`. -/
def variableList (kind : Kind) (word : String) : Rule (List Tree) :=
  construct kind do
    let head ← keyword word
    let found ← call .declarators
    return head ++ found ++ (← semicolon (lastHasValue found))

/-- A declared class behind its decorators. -/
def classStatement (line : Nat) (marks : List Tree) : Rule (List Tree) := do
  let found ← classParts
  closeBlock
  return [Tree.of .classDeclaration line (marks ++ found)]

/-- A declaration of variables, a function or a class. -/
def declaration : Rule (List Tree) := do
  let rest ← look
  let word := (Lexeme.name rest).1
  if word == "var".toList then variableList .variableDeclaration "var"
  else if word == "let".toList then variableList .lexicalDeclaration "let"
  else if word == "const".toList then variableList .lexicalDeclaration "const"
  else if word == "class".toList || nextIs '@' rest then
    let line := (← cursor).line
    classStatement line (← call .decorators)
  else if startsNamedDeclaration rest then functionNode true
  else refuse

/-! ## Loops and branches -/

/-- What a loop over members assigns to. -/
def loopTarget : Rule (List Tree) := do
  let rest ← look
  if nextWord "var" rest then
    keyword "var" ++ part .binding ++ initializer { lineEnds := false, noIn := true }
  else if nextWord "let" rest then keyword "let" ++ part .binding
  else if nextWord "const" rest then keyword "const" ++ part .binding
  else
    let before ← extras
    let left ← one (← call (.target .inner))
    match left.toAssigned? with
    | some assigned => return before ++ [assigned]
    | none => refuse

/-- The words that join what is assigned to and what is run over. -/
def loopWord : Rule (List Tree) := do
  let (word, after) := Lexeme.name (← lookBehind)
  if word == ['i', 'n'] || word == ['o', 'f'] then leaf .token word after else refuse

/-- The head of a loop over members. -/
def forIn : Rule (List Tree) :=
  construct .forInStatement
    (mark ['('] ++ loopTarget ++ loopWord ++ part (.expressions .inner) ++ mark [')'])

/-- A part of the head of a counting loop that may be left out. -/
def loopPart : Rule (List Tree) := do
  if nextIs ';' (← look) then leafOf .emptyStatement 1
  else part (.expressions .inner) ++ mark [';']

/-- What a counting loop starts with. -/
def loopStart : Rule (List Tree) := do
  let (word, after) := Lexeme.name (← look)
  let next := Cursor.upcoming after
  if word == "var".toList || word == "const".toList ||
      (word == "let".toList && (Lexeme.startsVariable next || nextIs '{' next || nextIs '[' next)) then
    part .declaration
  else loopPart

/-- The head of a counting loop. -/
def forCounter : Rule (List Tree) :=
  construct .forStatement
    (mark ['('] ++ loopStart ++ loopPart ++
      whenNext (!nextIs ')' ·) (part (.expressions .inner)) ++ mark [')'])

/-- A loop with a head. -/
def forStatement : Rule (List Tree) := do
  let line := (← cursor).line
  let start ← keyword "for" ++ whenNext (nextWord "await") (keyword "await")
  let before ← extras
  let head ← one (← choose .forIn .forCounter)
  let body ← part .statement
  return [Tree.of head.kind line (start ++ before ++ head.children ++ body)]

/-- A branch. -/
def ifStatement : Rule (List Tree) :=
  construct .ifStatement
    (keyword "if" ++ part .condition ++ part .statement ++
      whenNext (nextWord "else") (construct .elseClause (keyword "else" ++ part .statement)))

/-- A loop that tests behind its body. Its semicolon may be left out everywhere. -/
def doStatement : Rule (List Tree) :=
  construct .doStatement do
    let found ← keyword "do" ++ part .statement ++ keyword "while" ++ part .condition
    if ← omits false then
      closeBlock
      return found
    else if nextIs ';' (← lookBehind) then return found ++ (← leafOf .token 1)
    else return found

/-- A case of a switch, with its statements. -/
def switchCase : Rule (List Tree) := do
  if nextWord "case" (← look) then
    construct .switchCase
      (keyword "case" ++ part (.expressions .inner) ++ mark [':'] ++ call (.statements true))
  else construct .switchDefault (keyword "default" ++ mark [':'] ++ call (.statements true))

/-- The cases of a switch up to the closing brace, which is included. -/
def cases : Rule (List Tree) := do
  if nextIs '}' (← look) then leafOf .token 1 else switchCase ++ call .cases

/-- A switch. -/
def switchStatement : Rule (List Tree) :=
  construct .switchStatement
    (keyword "switch" ++ part .condition ++ construct .switchBody (mark ['{'] ++ call .cases))

/-- A handler of errors. -/
def catchClause : Rule (List Tree) :=
  construct .catchClause
    (keyword "catch" ++ whenNext (nextIs '(') (mark ['('] ++ part .binding ++ mark [')']) ++
      part .block)

/-- A guarded block. -/
def tryStatement : Rule (List Tree) :=
  construct .tryStatement
    (keyword "try" ++ part .block ++ whenNext (nextWord "catch") catchClause ++
      whenNext (nextWord "finally") (construct .finallyClause (keyword "finally" ++ part .block)))

/-! ## Jumps -/

/-- A jump to a label, or to the nearest loop. -/
def jump (kind : Kind) (word : String) : Rule (List Tree) :=
  construct kind do
    let head ← keyword word
    if ← omits false then return head ++ (← semicolon false)
    else if nextIs ';' (← lookBehind) then return head ++ (← leafOf .token 1)
    else return head ++ (← variableName .statementIdentifier ++ semicolon false)

/-- The end of a function with a value, or without one. -/
def returnStatement : Rule (List Tree) :=
  construct .returnStatement do
    let head ← keyword "return"
    if ← omits false then return head ++ (← semicolon false)
    else if nextIs ';' (← lookBehind) then return head ++ (← leafOf .token 1)
    else return head ++ (← part (.expressions .outer) ++ semicolon true)

/-! ## Statements -/

/-- An expression as a statement. -/
def expressionStatement : Rule (List Tree) :=
  construct .expressionStatement (part (.expressions .outer) ++ semicolon true)

/-- A statement with a label. -/
def labelled (word after : List Char) : Rule (List Tree) :=
  construct .labeledStatement
    (leaf .statementIdentifier word after ++ mark [':'] ++ part .statement)

/-- Whether the word `let` declares variables. -/
def letDeclares (after : List Char) : Bool :=
  let next := Cursor.upcoming after
  !Semicolon.omitted true after &&
    (Lexeme.startsVariable next || nextIs '{' next || nextIs '[' next)

/-- A statement that starts with a word. -/
def wordStatement (word after : List Char) (rest : List Char) : Rule (List Tree) := do
  let is (s : String) : Bool := word == s.toList
  if is "var" || is "const" || (is "let" && letDeclares after) then call .declaration
  else if is "if" then ifStatement
  else if is "for" then forStatement
  else if is "while" then
    construct .whileStatement (keyword "while" ++ part .condition ++ part .statement)
  else if is "do" then doStatement
  else if is "switch" then switchStatement
  else if is "try" then tryStatement
  else if is "with" then
    construct .withStatement (keyword "with" ++ part .condition ++ part .statement)
  else if is "return" then returnStatement
  else if is "throw" then
    construct .throwStatement (keyword "throw" ++ part (.expressions .outer) ++ semicolon true)
  else if is "break" then jump .breakStatement "break"
  else if is "continue" then jump .continueStatement "continue"
  else if is "debugger" then
    construct .debuggerStatement (keyword "debugger" ++ semicolon false)
  else if is "import" && !(nextIs '(' (Cursor.upcoming after) || nextIs '.' (Cursor.upcoming after)) then
    importStatement
  else if is "export" then
    let line := (← cursor).line
    exportStatement line []
  else if startsNamedDeclaration rest then call .declaration
  else if !Lexeme.isReserved word && !is "await" && !is "yield" &&
      nextIs ':' (Cursor.upcoming after) then
    labelled word after
  else expressionStatement

/-- A class or an export behind decorators. -/
def decorated : Rule (List Tree) := do
  let line := (← cursor).line
  let marks ← call .decorators
  let rest ← look
  if nextWord "export" rest then exportStatement line (marks ++ (← extras))
  else classStatement line marks

/-- A statement. -/
def statement : Rule (List Tree) := do
  let rest ← look
  match rest with
  | [] => refuse
  | c :: _ =>
    if c == '{' then
      if startsLabelled rest then choose .expressionStatement .block
      else choose .block .expressionStatement
    else if c == ';' then leafOf .emptyStatement 1
    else if c == '@' then decorated
    else
      let (word, after) := Lexeme.name rest
      if word.isEmpty then expressionStatement else wordStatement word after rest

/-- Statements up to a closing brace, or up to the next case. -/
def statements (inCase : Bool) : Rule (List Tree) := do
  let rest ← look
  if rest.isEmpty || nextIs '}' rest then return []
  else if inCase && (nextWord "case" rest || nextWord "default" rest) then return []
  else part .statement ++ call (.statements inCase)

/-- Notes where a statement of the program starts. -/
def anchorHere : Rule Unit := fun c => .done () { c with anchor := c.line }

/-- The statements of a program. -/
def program : Rule (List Tree) := do
  let rest ← look
  if rest.isEmpty then extras
  else
    anchorHere
    part .statement ++ call .program

end Phrasebook.Script.Grammar
