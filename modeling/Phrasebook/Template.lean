import Phrasebook.Catalog

/-!
# Phrasebook — templates for translators

A template is a header and a block for every entry of a catalog: the comments, the texts to be
translated as quoted strings, and places for what they become. An empty line ends each block.

Surrogates cannot be written to a file; each is written as its escape, in comments and strings alike.

* `Template.quote` — a text as a quoted string;
* `Template.header`, `Template.block?`, `Template.block` — the parts of a template;
* `Template.write` — the blocks of a list of entries, up to the first one that has none.
-/

namespace Phrasebook.Template

/-- A surrogate as its escape, any other code point as it is. -/
def writable (c : CodePoint) : Text :=
  if c.isSurrogate then ("\\u" : Text) ++ Text.ofChars (Value.hex 4 c.val) else [c]

/-- A text with its surrogates as escapes. -/
def escapeSurrogates (t : Text) : Text := t.flatMap writable

/-- A code point inside a quoted string: the quote, the backslash and control characters are
escaped. -/
def quotedCodePoint (c : CodePoint) : Text :=
  if c.is '\x22' then "\\\""
  else if c.is '\\' then "\\\\"
  else if c.is '\n' then "\\n"
  else if c.is '\r' then "\\r"
  else if c.is '\t' then "\\t"
  else if c.val == 0x0C then "\\f"
  else if c.val == 0x08 then "\\b"
  else if c.val < 0x20 then ("\\u" : Text) ++ Text.ofChars (Value.hex 4 c.val)
  else writable c

/-- A text as a quoted string. -/
def quote (t : Text) : Text :=
  [CodePoint.ofChar '\x22'] ++ t.flatMap quotedCodePoint ++ [CodePoint.ofChar '\x22']

/-- The header, which tells the encoding, and the empty line behind it. -/
def header : Text :=
  "msgid \"\"\nmsgstr \"\"\n\"Content-Type: text/plain; charset=UTF-8\\n\"\n\n"

/-- The lines for a payload that can be translated. -/
def body? (payload : Value) : Option (List Text) :=
  match payload with
  | .text t => some [("msgid " : Text) ++ quote t, "msgstr \"\""]
  | _ =>
    payload.plural?.map fun (singular, plural) =>
      [("msgid " : Text) ++ quote singular, ("msgid_plural " : Text) ++ quote plural,
        "msgstr[0] \"\"", "msgstr[1] \"\""]

/-- Lines, each with its end. -/
def joinLines (lines : List Text) : Text := lines.flatMap (· ++ ("\n" : Text))

/-- The block for comments and a payload, if it can be translated. -/
def block? (comments : List Text) (payload : Value) : Option Text :=
  (body? payload).map fun body =>
    joinLines (comments.map escapeSurrogates ++ body) ++ ("\n" : Text)

/-- The block of an entry. -/
def block (e : Entry) : Except Error Text :=
  match block? e.comments e.payload with
  | some text => .ok text
  | none => .error (.ofPayload e.origin e.payload)

/-- What has been written, and why no more. -/
structure Written where
  text : Text
  error : Option Error

/-- Writes the blocks of entries up to the first one that has none. -/
def write : List Entry → Written
  | [] => { text := [], error := none }
  | e :: es =>
    match block e with
    | .ok text =>
      let rest := write es
      { rest with text := text ++ rest.text }
    | .error error => { text := [], error := some error }

end Phrasebook.Template
