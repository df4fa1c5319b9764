import Phrasebook.Script.Grammar.Function
import Phrasebook.Script.Grammar.Literal

/-!
# Phrasebook — expressions

Operands, operators and what binds them. Operators of one level group to the left, except for the
power operator; the level of an operator is `Lexeme.binding?`. An assignment is read as soon as
something that can be assigned to is followed by its operator, so that `a + b = c` adds the value
of an assignment.
-/

namespace Phrasebook.Script.Grammar

open Rule

/-! ## Operands -/

/-- A name, or an arrow function with a single parameter. -/
def nameOrArrow (site : Site) (word after : List Char) : Rule (List Tree) := do
  let line := (← cursor).line
  let name ← leaf .identifier word after
  if arrow.isPrefixOf (← lookBehind) then
    let rest ← mark arrow ++ part (.arrowBody site)
    return [Tree.of .arrowFunction line (name ++ rest)]
  else return name

/-- Arguments that turned out to be the parameters of an arrow function. -/
def argumentsToParameters? : Tree → Option Tree
  | .node label (opening :: items) => do
    let (items, closing) ← splitLast items
    Tree.toParameters? label.line [opening] items [closing]
  | _ => none

/-- A call of something named `async`, or an arrow function marked so. -/
def asyncCallOrArrow (site : Site) (word after : List Char) : Rule (List Tree) := do
  let line := (← cursor).line
  let name ← leaf .identifier word after
  let found ← arguments
  if arrow.isPrefixOf (← lookBehind) then
    match splitLast found with
    | some (before, list) =>
      match argumentsToParameters? list with
      | some parameters =>
        let rest ← mark arrow ++ part (.arrowBody site)
        let head := name.map (Tree.withKind .token)
        return [Tree.of .arrowFunction line (head ++ before ++ [parameters] ++ rest)]
      | none => refuse
    | none => refuse
  else
    return [Tree.of .callExpression line (inRole .function name ++ inRole .arguments found)]

/-- An operand that starts with the word `async`. -/
def asyncOperand (site : Site) (word after : List Char) : Rule (List Tree) := do
  let next := Cursor.upcoming after
  let (follower, behind) := Lexeme.name next
  if site.lineEnds && Semicolon.omitted true after then nameOrArrow site word after
  else if follower == "function".toList then functionNode false
  else if Lexeme.startsVariable next && arrow.isPrefixOf (Cursor.upcoming behind) then
    construct .arrowFunction
      (leaf .token word after ++ variableName .identifier ++ mark arrow ++ part (.arrowBody site))
  else if next.head? == some '(' then asyncCallOrArrow site word after
  else nameOrArrow site word after

/-- What stands between parentheses: an expression, or the parameters of an arrow function. -/
def parenthesized (site : Site) : Rule (List Tree) := do
  let line := (← cursor).line
  let opening ← mark ['(']
  let found ← call (.elements ')' true)
  match splitLast found with
  | none => refuse
  | some (items, closing) =>
    if arrow.isPrefixOf (← lookBehind) then
      match Tree.toParameters? line opening items [closing] with
      | some parameters =>
        let rest ← mark arrow ++ part (.arrowBody site)
        return [Tree.of .arrowFunction line ([parameters] ++ rest)]
      | none => refuse
    else
      match Tree.toParenthesized? line opening items [closing] with
      | some t => return [t]
      | none => refuse

/-- An object made by `new`, or the meta property `new.target`. -/
def newOperand : Rule (List Tree) := do
  let line := (← cursor).line
  let head ← keyword "new"
  if (← look).head? == some '.' then
    let rest ← mark ['.'] ++ keyword "target"
    return [Tree.of .metaProperty line (head ++ rest)]
  else
    let made ← part .constructor
    let given ← if (← lookBehind).head? == some '(' then arguments else pure []
    return [Tree.of .newExpression line (head ++ made ++ given)]

/-- The word `import` before a call or a member, or the meta property `import.meta`. -/
def importOperand (word after : List Char) : Rule (List Tree) := do
  match Cursor.upcoming after with
  | '(' :: _ => leaf .importKeyword word after
  | '.' :: more =>
    if (Lexeme.name (Cursor.upcoming more)).1 == "meta".toList then
      construct .metaProperty (leaf .token word after ++ mark ['.'] ++ keyword "meta")
    else leaf .importKeyword word after
  | _ => refuse

/-- A private name, as the left side of `in`. -/
def privateOperand : Rule (List Tree) := do
  let name ← privateName
  match Lexeme.operator? (← lookBehind) with
  | some (op, _) => if op == ['i', 'n'] then return name else refuse
  | none => refuse

/-- Words that are operands of a kind of their own. -/
def wordKind? (word : List Char) : Option Kind :=
  if word == "this".toList then some .thisKeyword
  else if word == "super".toList then some .superKeyword
  else if word == "null".toList then some .nullLiteral
  else if word == "true".toList then some .trueLiteral
  else if word == "false".toList then some .falseLiteral
  else if word == "undefined".toList then some .undefinedKeyword
  else none

/-- An operand that starts with a word. -/
def wordOperand (site : Site) : Rule (List Tree) := do
  let (word, after) := Lexeme.name (← look)
  if word.isEmpty then refuse
  else
    match wordKind? word with
    | some kind => leaf kind word after
    | none =>
      if word == "function".toList then functionNode false
      else if word == "class".toList then construct .classExpression classParts
      else if word == "new".toList then newOperand
      else if word == "import".toList then importOperand word after
      else if word == "async".toList then asyncOperand site word after
      else if Lexeme.isReserved word && word != "export".toList then refuse
      else nameOrArrow site word after

/-- An operand without prefix and suffix. -/
def primary (site : Site) : Rule (List Tree) := do
  let rest ← look
  match rest with
  | [] => refuse
  | c :: more =>
    if c == '(' then parenthesized site
    else if c == '[' then construct .arrayLiteral (mark ['['] ++ call (.elements ']' true))
    else if c == '{' then construct .objectLiteral (mark ['{'] ++ call (.properties true))
    else if c == '\x22' || c == '\x27' then scanned .stringLiteral Lexeme.string
    else if c == '\x60' then template
    else if c.isDigit || (c == '.' && more.head?.any Char.isDigit) then
      leafOf .numberLiteral (Lexeme.numberLength rest)
    else if c == '/' then regex
    else if c == '<' then call .element
    else if c == '@' then construct .classExpression (call .decorators ++ classParts)
    else if c == '#' then privateOperand
    else wordOperand site

/-! ## Suffixes -/

/-- The name of a member behind its dot. -/
def memberName : Rule (List Tree) := do
  let rest ← look
  if rest.head? == some '#' then privateName
  else
    let (word, after) := Lexeme.name rest
    if word.isEmpty then refuse else leaf .propertyIdentifier word after

/-- An index in brackets. -/
def index : Rule (List Tree) := mark ['['] ++ part (.expressions .inner) ++ mark [']']

/-- Members, calls, indices, templates and counters behind an operand. Without `calls` only what
belongs to the operand of `new` is read. -/
def suffixes (site : Site) (calls : Bool) (left : Tree) : Rule (List Tree) := do
  let again (kind : Kind) (rest : List Tree) : Rule (List Tree) :=
    call (.suffixes site calls (Tree.of kind left.line rest))
  if ← ends site then return [left]
  let rest ← lookBehind
  match rest with
  | [] => return [left]
  | c :: _ =>
    if c == '.' then
      let dot ← leafOf .token 1
      let name ← memberName
      again .memberExpression ([left.withRole .object] ++ dot ++ inRole .property name)
    else if Lexeme.startsOptionalChain rest then
      let chain ← leafOf .optionalChain 2
      match ← look with
      | '(' :: _ =>
        let given ← arguments
        again .callExpression ([left.withRole .function] ++ chain ++ inRole .arguments given)
      | '[' :: _ =>
        let found ← index
        again .subscriptExpression ([left] ++ chain ++ found)
      | _ =>
        let name ← memberName
        again .memberExpression ([left.withRole .object] ++ chain ++ inRole .property name)
    else if c == '[' then
      let found ← index
      again .subscriptExpression ([left] ++ found)
    else if c == '(' && calls then
      let given ← arguments
      again .callExpression ([left.withRole .function] ++ inRole .arguments given)
    else if c == '\x60' then
      let before ← extras
      let text ← template
      again .callExpression ([left.withRole .function] ++ before ++ inRole .arguments text)
    else if calls && (['+', '+'].isPrefixOf rest || ['-', '-'].isPrefixOf rest) then
      let counter ← leafOf .token 2
      again .updateExpression ([left] ++ counter)
    else return [left]

/-- An operand with its suffixes. -/
def target (site : Site) : Rule (List Tree) := do
  suffixes site true (← one (← primary site))

/-- What `new` is applied to. -/
def constructed : Rule (List Tree) := do
  suffixes .inner false (← one (← primary .inner))

/-! ## Operators -/

/-- A `yield`, which takes along all that follows it if that can be an operand. -/
def yieldOperand (site : Site) : Rule (List Tree) :=
  construct .yieldExpression do
    let head ← keyword "yield"
    if ← ends site then return head
    let rest ← lookBehind
    if rest.head? == some '*' then
      let value ← mark ['*'] ++ part (.expression site)
      return head ++ value
    else if Lexeme.startsOperand rest then return head ++ (← part (.expression site))
    else return head

/-- An operand without prefix, or an assignment to it. -/
def assignment (site : Site) : Rule (List Tree) := do
  let left ← one (← target site)
  if ← ends site then return [left]
  match Lexeme.operator? (← lookBehind) with
  | none => return [left]
  | some (op, rest) =>
    if op == ['='] then
      match left.toAssigned? with
      | none => return [left]
      | some assigned =>
        let value ← leaf .token op rest ++ part (.expression site)
        return [Tree.of .assignmentExpression left.line ([assigned] ++ value)]
    else if Lexeme.isCompoundAssignment op &&
        (Tree.isPlace left.kind || left.kind == .parenthesizedExpression) then
      let value ← leaf .token op rest ++ part (.expression site)
      return [Tree.of .augmentedAssignmentExpression left.line ([left] ++ value)]
    else return [left]

/-- An operand with its prefixes. -/
def operand (site : Site) : Rule (List Tree) := do
  let rest ← look
  match rest with
  | '+' :: '+' :: _ => construct .updateExpression (leafOf .token 2 ++ part (.operand site))
  | '-' :: '-' :: _ => construct .updateExpression (leafOf .token 2 ++ part (.operand site))
  | c :: _ =>
    if c == '!' || c == '~' || c == '+' || c == '-' then
      construct .unaryExpression (leafOf .token 1 ++ part (.operand site))
    else
      let (word, after) := Lexeme.name rest
      if word == "typeof".toList || word == "void".toList || word == "delete".toList then
        construct .unaryExpression (leaf .token word after ++ part (.operand site))
      else if word == "await".toList then
        construct .awaitExpression (leaf .token word after ++ part (.operand site))
      else if word == "yield".toList then yieldOperand site
      else assignment site
  | [] => refuse

/-- The binary operators of at least the given level behind an operand. -/
def operators (site : Site) (level : Nat) (left : Tree) : Rule (List Tree) := do
  if ← ends site then return [left]
  match Lexeme.operator? (← lookBehind) with
  | none => return [left]
  | some (op, rest) =>
    match Lexeme.binding? op with
    | none => return [left]
    | some binding =>
      if binding < level || (site.noIn && op == ['i', 'n']) then return [left]
      else
        let next := if binding == Lexeme.powerBinding then binding else binding + 1
        let right ← leaf .token op rest ++ part (.binary site next)
        call (.operators site level (Tree.of .binaryExpression left.line ([left] ++ right)))

/-- An expression whose operators bind at least as tightly as the level. -/
def binary (site : Site) (level : Nat) : Rule (List Tree) := do
  operators site level (← one (← operand site))

/-- An expression without commas. -/
def expression (site : Site) : Rule (List Tree) := do
  let test ← one (← binary site 0)
  if ← ends site then return [test]
  if Lexeme.startsConditional (← lookBehind) then
    let rest ← leafOf .token 1 ++ part (.expression .inner) ++ mark [':'] ++ part (.expression site)
    return [Tree.of .ternaryExpression test.line ([test] ++ rest)]
  else return [test]

/-- The expressions behind the first one of a sequence. -/
def moreExpressions (site : Site) : Rule (List Tree) := do
  if ← ends site then return []
  if (← lookBehind).head? == some ',' then
    leafOf .token 1 ++ part (.expression site) ++ call (.moreExpressions site)
  else return []

/-- An expression, or a sequence of them. -/
def expressions (site : Site) : Rule (List Tree) := do
  let first ← one (← expression site)
  let more ← moreExpressions site
  if more.isEmpty then return [first]
  else return [Tree.of .sequenceExpression first.line ([first] ++ more)]

end Phrasebook.Script.Grammar
