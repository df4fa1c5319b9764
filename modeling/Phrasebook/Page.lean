import Phrasebook.Text.Blank
import Phrasebook.Text.UpperCase
import Phrasebook.Text.Word

/-!
# Phrasebook — scripts in pages

A page keeps the bodies of its inline scripts. Everything between them, tags included, is a *gap*,
which becomes as many line feeds as it holds and a semicolon: so every kept line stays on the line it
has in the page, and no statement runs into the next script.

A script element reaches from an opening tag to the nearest closing tag; letters of tags match in
either case, also in the few letters beyond ASCII whose case folds to an ASCII one. It is kept unless
its attributes give it a type other than those of scripts.

* `Page.holdsScript` — whether the attributes of a script element let it be kept;
* `Page.split` — the gaps and the kept bodies of a page, in turn;
* `Page.code` — the script text of a page.
-/

namespace Phrasebook.Page

/-! ## Tags -/

/-- Whether a code point is the given lower-case letter up to case. -/
def folds (letter : Char) (c : CodePoint) : Bool :=
  c.asciiLower.is letter || (letter == 's' && c.val == 0x17F) ||
    (letter == 'i' && (c.val == 0x130 || c.val == 0x131))

/-- What follows a word at the start of a text, if the word stands there up to case. -/
def dropWord? : List Char → Text → Option Text
  | [], t => some t
  | letter :: word, c :: t => if folds letter c then dropWord? word t else none
  | _ :: _, [] => none

/-- What follows one particular code point. -/
def dropMark? (mark : Char) : Text → Option Text
  | c :: t => if c.is mark then some t else none
  | [] => none

/-- Drops blanks. -/
def dropBlanks (t : Text) : Text := t.dropWhile CodePoint.isBlank

/-- The attributes of an opening script tag at the start of a text, and what follows the tag. -/
def openingTag? (t : Text) : Option (Text × Text) := do
  let inside ← (dropMark? '<' t).bind (dropWord? "script".toList)
  if inside.head?.any CodePoint.isWord then none
  let attributes := inside.takeWhile (!·.is '>')
  let body ← dropMark? '>' (inside.drop attributes.length)
  return (attributes, body)

/-- What follows a closing script tag at the start of a text. -/
def closingTag? (t : Text) : Option Text := do
  let inside ← ((dropMark? '<' t).bind (dropMark? '/')).bind (dropWord? "script".toList)
  dropMark? '>' (dropBlanks inside)

/-- The text before the nearest closing tag, and what follows the tag. -/
def untilClosing? : Text → Option (Text × Text)
  | [] => none
  | c :: t =>
    match closingTag? (c :: t) with
    | some rest => some ([], rest)
    | none => (untilClosing? t).map fun (body, rest) => (c :: body, rest)

/-- A script element: its attributes, and the lengths of its opening tag, its body and its closing
tag. -/
structure Element where
  attributes : Text
  opening : Nat
  body : Nat
  closing : Nat

/-- The script element at the start of a text. -/
def element? (t : Text) : Option Element := do
  let (attributes, inside) ← openingTag? t
  let (body, rest) ← untilClosing? inside
  return {
    attributes
    opening := t.length - inside.length
    body := body.length
    closing := inside.length - body.length - rest.length }

/-! ## Attributes -/

/-- The types of scripts that do not end with `javascript`. -/
def scriptTypes : List Text :=
  ["application/ecmascript", "module", "text/babel", "text/ecmascript", "text/jsx"].map Text.ofString

/-- The value of a type attribute whose name starts the text: an equals sign between blanks, a quote
if there is one, and all up to a quote, a blank or the end of the tag. -/
def typeValue? (t : Text) : Option Text := do
  let behind ← dropWord? "type".toList t
  let value := dropBlanks (← dropMark? '=' (dropBlanks behind))
  let isQuote (c : CodePoint) : Bool := c.is '\x22' || c.is '\x27'
  let value := if value.head?.any isQuote then value.drop 1 else value
  let found := value.takeWhile fun c => !(isQuote c || c.isBlank || c.is '>')
  if found.isEmpty then none else some found

/-- The value of the first type attribute. Its name starts a word; `inWord` says that the text
follows a word code point. -/
def findType? (inWord : Bool) : Text → Option Text
  | [] => none
  | c :: t =>
    match if inWord then none else typeValue? (c :: t) with
    | some value => some value
    | none => findType? c.isWord t

/-- Whether a script element with the given attributes holds a script. -/
def holdsScript (attributes : Text) : Bool :=
  match findType? false attributes with
  | none => true
  | some value =>
    let lower := value.map CodePoint.asciiLower
    ("javascript" : Text).isSuffixOf lower || scriptTypes.contains lower

/-! ## Gaps and bodies -/

/-- Gaps and kept bodies in turn. -/
structure Parts where
  /-- The kept bodies, each with the gap before it. -/
  kept : List (Text × Text)
  /-- The gap behind the last body. -/
  tail : Text

/-- Splits a page. `gap` is the open gap in reverse; the next `dropped` code points belong to what
was kept last, and the `passed` ones after them belong to the gap and start no element. -/
def splitFrom (gap : Text) (dropped passed : Nat) : Text → Parts
  | [] => { kept := [], tail := gap.reverse }
  | c :: t =>
    match dropped, passed with
    | dropped + 1, passed => splitFrom gap dropped passed t
    | 0, passed + 1 => splitFrom (c :: gap) 0 passed t
    | 0, 0 =>
      match element? (c :: t) with
      | none => splitFrom (c :: gap) 0 0 t
      | some e =>
        if holdsScript e.attributes then
          let rest := splitFrom [] (e.opening + e.body - 1) e.closing t
          let before := gap.reverse ++ (c :: t).take e.opening
          let body := ((c :: t).drop e.opening).take e.body
          { rest with kept := (before, body) :: rest.kept }
        else splitFrom (c :: gap) 0 (e.opening + e.body + e.closing - 1) t

/-- The gaps and the kept bodies of a page. -/
def split (page : Text) : Parts := splitFrom [] 0 0 page

/-- What stands for a gap: its line feeds, and a semicolon. -/
def blank (gap : Text) : Text :=
  List.replicate (Text.lineFeeds gap) (CodePoint.ofChar '\n') ++ [CodePoint.ofChar ';']

/-- The script text of gaps and bodies. -/
def Parts.code (parts : Parts) : Text :=
  parts.kept.flatMap (fun (gap, body) => blank gap ++ body) ++ blank parts.tail

/-- The script text of a page. -/
def code (page : Text) : Text := (split page).code

end Phrasebook.Page
