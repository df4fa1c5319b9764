import Phrasebook.Script.Grammar.Function

/-!
# Phrasebook — elements

Markup inside scripts: elements with attributes and children. Between the tags of an element the text
counts as it stands, except for runs that hold nothing but line ends and the white space behind
them.
-/

namespace Phrasebook.Script.Grammar

open Rule

/-- An expression in braces, as an attribute, its value or a child. -/
def elementExpression : Rule (List Tree) :=
  construct .jsxExpression do
    let opening ← mark ['{']
    let rest ← look
    let inside ←
      if nextIs '}' rest then pure []
      else if ellipsis.isPrefixOf rest then spread
      else part (.expressions .inner)
    let closing ← mark ['}']
    return opening ++ inside ++ closing

/-- A name of an element or an attribute, of the given kind. -/
def tagWord (kind : Kind) : Rule (List Tree) := do
  let (word, after) := Lexeme.tagName (← look)
  if word.isEmpty then refuse else leaf kind word after

/-- The second part of a name with a colon, around its first part. -/
def namespaced (first : Tree) : Rule (List Tree) := do
  let rest ← mark [':'] ++ tagWord .identifier
  return [Tree.of .jsxNamespaceName first.line ([first.withKind .identifier] ++ rest)]

/-- The name of an element: a word, a dotted name or a name with a colon. -/
def elementName : Rule (List Tree) := do
  let before ← extras
  let first ← one (← tagWord .identifier)
  if Lexeme.isReserved first.spelling then refuse
  else
    match ← lookBehind with
    | ':' :: _ => return before ++ (← namespaced first)
    | '.' :: _ => return before ++ (← dotted first)
    | _ => return before ++ [first]

/-- The value of an attribute. -/
def attributeValue : Rule (List Tree) := do
  match ← look with
  | '{' :: _ => elementExpression
  | '<' :: _ => part .element
  | c :: _ =>
    if c == '\x22' || c == '\x27' then
      let before ← extras
      return before ++ (← scanned .stringLiteral Lexeme.attributeString)
    else refuse
  | [] => refuse

/-- An attribute with a name. -/
def namedAttribute : Rule (List Tree) :=
  construct .jsxAttribute do
    let first ← one (← tagWord .propertyIdentifier)
    let name ← if nextIs ':' (← look) then namespaced first else pure [first]
    let value ← whenNext (nextIs '=') (mark ['='] ++ attributeValue)
    return name ++ value

/-- Attributes, if there are any. -/
def attributes : Rule (List Tree) := do
  match ← look with
  | '{' :: _ => elementExpression ++ call .attributes
  | c :: _ =>
    if isNameStart c || c == '\\' then namedAttribute ++ call .attributes else return []
  | [] => return []

/-- Moves on without a token. -/
def pass (taken rest : List Char) : Rule Unit := fun c =>
  .done () { c with rest, line := c.line + lineFeeds taken }

/-- The children of an element, up to its closing tag. -/
def elementChildren : Rule (List Tree) := do
  let (counts, text, rest) := Lexeme.elementText (← cursor).rest
  if counts then leaf .jsxText text rest ++ call .elementChildren
  else
    pass text rest
    match rest with
    | '<' :: '/' :: _ => return []
    | '<' :: more =>
      if Cursor.startsPageComment '<' more then
        let comment := rest.takeWhile (!endsLine ·)
        leaf .htmlComment comment (rest.drop comment.length) ++ call .elementChildren
      else call .element ++ call .elementChildren
    | '{' :: _ => elementExpression ++ call .elementChildren
    | '&' :: more =>
      match Lexeme.referenceLength? more with
      | some length => leafOf .htmlCharacterReference (length + 1) ++ call .elementChildren
      | none => refuse
    | _ => refuse

/-- The closing tag of an element. -/
def closingTag : Rule (List Tree) :=
  construct .jsxClosingElement
    (mark ['<', '/'] ++ whenNext (!nextIs '>' ·) elementName ++ mark ['>'])

/-- An element, from its opening bracket on. -/
def element : Rule (List Tree) := do
  let line := (← cursor).line
  let opening ← leafOf .token 1
  let head ← whenNext (!nextIs '>' ·) (elementName ++ call .attributes)
  if !head.isEmpty && ['/', '>'].isPrefixOf (← look) then
    let closing ← mark ['/', '>']
    return [Tree.of .jsxSelfClosingElement line (opening ++ head ++ closing)]
  else
    let closing ← mark ['>']
    let tag := Tree.of .jsxOpeningElement line (opening ++ head ++ closing)
    let rest ← call .elementChildren ++ closingTag
    return [Tree.of .jsxElement line ([tag] ++ rest)]

end Phrasebook.Script.Grammar
