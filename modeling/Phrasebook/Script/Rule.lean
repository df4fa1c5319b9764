import Phrasebook.Script.Cursor
import Phrasebook.Script.Lexeme

/-!
# Phrasebook — grammar rules and the machine that runs them

A grammar is a rule for every *goal*. A rule reads tokens from a cursor; where the grammar is
recursive it does not call another rule but asks for a goal and says how to go on with the trees
found. The machine keeps these continuations on a stack of its own, so that scripts may nest to any
depth.

A rule may also ask for a choice between two goals: the second is tried where the first cannot be
read. When nothing is left to try, the text is refused at the position that was reached last.

* `Goal`, `Step`, `Rule` — goals, the result of a rule up to the next goal, and rules as a monad;
* `Machine.move`, `Machine.run` — one move of the machine, and its run to the end of a step.
-/

namespace Phrasebook.Script

/-- Where an expression stands. -/
structure Site where
  /-- Whether the end of a line may end the expression. -/
  lineEnds : Bool
  /-- Whether the operator `in` belongs to the construct around the expression. -/
  noIn : Bool := false

/-- An expression inside brackets. -/
def Site.inner : Site := { lineEnds := false }

/-- An expression that ends a statement. -/
def Site.outer : Site := { lineEnds := true }

/-- A node with children. -/
def Tree.of (kind : Kind) (line : Nat) (children : List Tree) : Tree :=
  .node { kind, line } children

/-- What a rule can ask for. -/
inductive Goal where
  /-- The statements of a program. -/
  | program
  /-- The statements up to a closing brace, or up to the next case. -/
  | statements (inCase : Bool)
  | statement
  | expressionStatement
  | block
  | declaration
  | declarators
  /-- A name or pattern that is declared. -/
  | binding
  /-- An expression in parentheses. -/
  | condition
  /-- The head of a loop over the members of a value. -/
  | forIn
  /-- The head of a loop with a counter. -/
  | forCounter
  | cases
  | members
  | specifiers
  | decorators
  | expressions (site : Site)
  /-- The expressions behind the first one of a sequence. -/
  | moreExpressions (site : Site)
  | expression (site : Site)
  /-- An expression whose operators bind at least as tightly as the level. -/
  | binary (site : Site) (level : Nat)
  | operators (site : Site) (level : Nat) (left : Tree)
  | operand (site : Site)
  /-- An operand without operators. -/
  | target (site : Site)
  /-- What `new` is applied to. -/
  | constructor
  | suffixes (site : Site) (calls : Bool) (left : Tree)
  | arrowBody (site : Site)
  /-- Items up to a closing bracket; `fresh` where an item may start. -/
  | elements (close : Char) (fresh : Bool)
  | properties (fresh : Bool)
  /-- The parts of a template that starts on the given line. -/
  | templateParts (line : Nat)
  | element
  | attributes
  | elementChildren
  /-- The rest of a dotted name. -/
  | dotted (left : Tree)

/-- What a rule does up to the point where it needs a goal. -/
inductive Step (α : Type) where
  | done (value : α) (next : Cursor)
  | fail (here : Cursor)
  | call (goal : Goal) (here : Cursor) (next : List Tree → Cursor → Step α)
  | choose (first second : Goal) (here : Cursor) (next : List Tree → Cursor → Step α)

/-- Goes on behind a step. -/
def Step.bind {α β : Type} (f : α → Cursor → Step β) : Step α → Step β
  | .done a c => f a c
  | .fail c => .fail c
  | .call g c next => .call g c fun ts d => (next ts d).bind f
  | .choose g h c next => .choose g h c fun ts d => (next ts d).bind f

/-- A rule reads from a cursor. -/
def Rule (α : Type) : Type := Cursor → Step α

instance : Monad Rule where
  pure a := fun c => .done a c
  bind r f := fun c => (r c).bind f

namespace Rule

/-- The cursor. -/
def cursor : Rule Cursor := fun c => .done c c

/-- Refuses the text at the next token. -/
def refuse {α : Type} : Rule α := fun c =>
  match c.skip false with
  | .ok d => .fail d
  | .error d => .fail d

/-- Refuses the text; if it is at its end, at the given line. -/
def refuseFrom {α : Type} (line : Nat) : Rule α := fun c => .fail { c with anchor := line }

/-- Passes the space before the next token where comments in page syntax are read, and gives the
text from the token on. -/
def look : Rule (List Char) := fun c =>
  match c.skip true with
  | .ok d => .done d.rest d
  | .error d => .fail d

/-- Passes the space behind an operand and gives the text from the next token on. -/
def lookBehind : Rule (List Char) := fun c =>
  match c.skip false with
  | .ok d => .done d.rest d
  | .error d => .fail d

/-- The line of the next token. -/
def line : Rule Nat := do
  let _ ← look
  return (← cursor).line

/-- Whether a semicolon is left out here. -/
def omits (operand : Bool) : Rule Bool := do
  return (← cursor).omits operand

/-- Whether an operand that just ended also ends its expression, because the line ends. -/
def ends (site : Site) : Rule Bool := fun c => .done (site.lineEnds && c.omits true) c

/-- A leaf with the given spelling, and the comments before it. -/
def leaf (kind : Kind) (taken rest : List Char) : Rule (List Tree) := fun c =>
  .done (c.pending.reverse ++ [.node { kind, line := c.line, spelling := taken } []])
    (c.behind taken rest)

/-- A leaf of the given length. -/
def leafOf (kind : Kind) (length : Nat) : Rule (List Tree) := do
  let rest := (← cursor).rest
  leaf kind (rest.take length) (rest.drop length)

/-- One particular token of punctuation, and the comments before it. -/
def mark (spelling : List Char) : Rule (List Tree) := do
  let rest ← look
  if spelling.isPrefixOf rest then leaf .token spelling (rest.drop spelling.length) else refuse

/-- One particular word, and the comments before it. -/
def keyword (word : String) : Rule (List Tree) := do
  let (found, rest) := Lexeme.name (← look)
  if found == word.toList then leaf .token found rest else refuse

/-- A word of the given kind that can name a variable. -/
def variableName (kind : Kind) : Rule (List Tree) := do
  let (word, rest) := Lexeme.name (← look)
  if word.isEmpty || Lexeme.isReserved word then refuse else leaf kind word rest

/-- A token that may be stuck before its end. A token that has none is refused at its start. -/
def scanned (kind : Kind) (scan : List Char → Lexeme.Scan) : Rule (List Tree) := do
  let start ← cursor
  match scan start.rest with
  | .done taken rest => leaf kind taken rest
  | .stuck taken rest =>
    if rest.isEmpty then refuse
    else fun c => .fail { c with rest, line := start.line + lineFeeds taken }

/-- Reads a goal at the next token. -/
def call (goal : Goal) : Rule (List Tree) := fun c => .call goal c .done

/-- Reads the first goal, or the second where the first cannot be read. -/
def choose (first second : Goal) : Rule (List Tree) := fun c => .choose first second c .done

/-- Takes the comments passed before the next token. -/
def extras : Rule (List Tree) := fun c =>
  match c.skip true with
  | .ok d => .done d.pending.reverse { d with pending := [] }
  | .error d => .fail d

/-- Reads a goal, with the comments before it. -/
def part (goal : Goal) : Rule (List Tree) := do
  let before ← extras
  return before ++ (← call goal)

/-- The end of a statement: a semicolon, or none where it may be left out. -/
def semicolon (operand : Bool) : Rule (List Tree) := do
  if ← omits operand then fun c => .done [] { c with settled := false }
  else
    match ← lookBehind with
    | ';' :: rest => leaf .token [';'] rest
    | _ => refuse

/-- Notes that the last token closed the block of a statement. -/
def closeBlock : Rule Unit := fun c => .done () { c with afterBlock := true }

/-- The comments and the tree among trees of which the last one is the tree. -/
def splitLast (trees : List Tree) : Option (List Tree × Tree) :=
  match trees.reverse with
  | [] => none
  | t :: before => some (before.reverse, t)

/-- The only tree of a list. -/
def one (trees : List Tree) : Rule Tree :=
  match trees with
  | [t] => return t
  | _ => refuse

/-- Gives the last tree a role. -/
def inRole (role : Role) (trees : List Tree) : List Tree :=
  match splitLast trees with
  | some (before, t) => before ++ [t.withRole role]
  | none => trees

/-- Rules one after the other; the trees they find are joined. -/
instance : Append (Rule (List Tree)) where
  append r s := do
    let before ← r
    let after ← s
    return before ++ after

/-- A rule that is read only if the text from the next token on passes the test. -/
def whenNext (test : List Char → Bool) (rule : Rule (List Tree)) : Rule (List Tree) := do
  if test (← look) then rule else return []

/-- A node around the trees that a rule finds, and the comments before it. -/
def construct (kind : Kind) (rule : Rule (List Tree)) : Rule (List Tree) := do
  let before ← extras
  let line := (← cursor).line
  let children ← rule
  return before ++ [Tree.of kind line children]

end Rule

namespace Machine

/-- A continuation on the stack of the machine. -/
inductive Frame where
  /-- Goes on with the trees found. -/
  | resume (next : List Tree → Cursor → Step (List Tree))
  /-- Goes on with another goal if the one above it fails. -/
  | otherwise (goal : Goal) (here : Cursor)

/-- The next goal to try, and the stack below it. -/
def fallback? : List Frame → Option (Goal × Cursor × List Frame)
  | [] => none
  | .resume _ :: stack => fallback? stack
  | .otherwise goal here :: stack => some (goal, here, stack)

/-- A position at which a text was refused: how much was unread, and the line to report. -/
structure Refusal where
  unread : Nat
  line : Nat

/-- The later one of two refusals. -/
def Refusal.later (known : Option Refusal) (c : Cursor) : Refusal :=
  let here : Refusal := ⟨c.rest.length, c.errorLine⟩
  match known with
  | some r => if r.unread ≤ here.unread then r else here
  | none => here

/-- What the machine has before it: the latest refusal, the stack, and the step on top of it. -/
structure State where
  refusal : Option Refusal
  stack : List Frame
  step : Step (List Tree)

/-- How far the machine has come. -/
inductive Status where
  | running (state : State)
  | found (trees : List Tree)
  /-- Nothing is left to try. The line is that of the latest refusal. -/
  | refused (line : Nat)

/-- One move. -/
def move (rules : Goal → Rule (List Tree)) (s : State) : Status :=
  match s.step with
  | .done trees here =>
    match s.stack with
    | [] => .found trees
    | .resume next :: stack => .running { s with stack, step := next trees here }
    | .otherwise _ _ :: stack => .running { s with stack }
  | .call goal here next => .running { s with stack := .resume next :: s.stack, step := rules goal here }
  | .choose first second here next =>
    .running { s with
      stack := .otherwise second here :: .resume next :: s.stack
      step := rules first here }
  | .fail here =>
    let refusal := Refusal.later s.refusal here
    match fallback? s.stack with
    | some (goal, there, stack) => .running { refusal, stack, step := rules goal there }
    | none => .refused refusal.line

/-- Goes on from the state that the machine has come to, if it is still running. -/
def Status.andThen (next : State → Status) : Status → Status
  | .running s => next s
  | .found trees => .found trees
  | .refused line => .refused line

/-- At most `2 ^ power` moves. -/
def moves (rules : Goal → Rule (List Tree)) : Nat → State → Status
  | 0, s => move rules s
  | power + 1, s => (moves rules power s).andThen (moves rules power)

/-- Rounds of moves, twice as many in each round as in the one before. Where choices are nested, all of
them may have to be tried, so that the number of moves has no smaller bound than a power; doubling reaches
it in few rounds, and no number that large is ever counted. -/
def runFrom (rules : Goal → Rule (List Tree)) : Nat → Nat → State → Status
  | 0, _, s => .running s
  | rounds + 1, power, s => (moves rules power s).andThen (runFrom rules rounds (power + 1))

/-- Runs a step to its end, in at most the given number of rounds. -/
def run (rules : Goal → Rule (List Tree)) (rounds : Nat) (step : Step (List Tree)) : Status :=
  runFrom rules rounds 0 { refusal := none, stack := [], step }

end Machine

end Phrasebook.Script
