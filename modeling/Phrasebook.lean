import Phrasebook.Catalog
import Phrasebook.Command.Help
import Phrasebook.Command.Report
import Phrasebook.Command.Request
import Phrasebook.Command.Word
import Phrasebook.Error
import Phrasebook.Event
import Phrasebook.Extraction
import Phrasebook.Files.Disk
import Phrasebook.Files.Fault
import Phrasebook.Files.FileSystem
import Phrasebook.Files.Path
import Phrasebook.Files.Walk
import Phrasebook.Main
import Phrasebook.Marker
import Phrasebook.Message
import Phrasebook.Number.Binary64
import Phrasebook.Number.Numeral
import Phrasebook.Page
import Phrasebook.Placeholder
import Phrasebook.Script.Character
import Phrasebook.Script.Comment
import Phrasebook.Script.Cursor
import Phrasebook.Script.Escape
import Phrasebook.Script.Grammar.Element
import Phrasebook.Script.Grammar.Expression
import Phrasebook.Script.Grammar.Function
import Phrasebook.Script.Grammar.Literal
import Phrasebook.Script.Grammar.Module
import Phrasebook.Script.Grammar.Statement
import Phrasebook.Script.Kind
import Phrasebook.Script.Lexeme
import Phrasebook.Script.Lower
import Phrasebook.Script.Node
import Phrasebook.Script.Parse
import Phrasebook.Script.Pattern
import Phrasebook.Script.Rule
import Phrasebook.Script.Semicolon
import Phrasebook.Script.Tree
import Phrasebook.Source
import Phrasebook.Template
import Phrasebook.Text.Blank
import Phrasebook.Text.CodePoint
import Phrasebook.Text.Digit
import Phrasebook.Text.Printable
import Phrasebook.Text.Ranges
import Phrasebook.Text.Units
import Phrasebook.Text.UpperCase
import Phrasebook.Text.Utf8
import Phrasebook.Text.Word
import Phrasebook.Value
import Phrasebook.Proofs.DescendingOrder
import Phrasebook.Proofs.Merging
import Phrasebook.Proofs.Payload
import Phrasebook.Proofs.Quoting
import Phrasebook.Proofs.Reading
import Phrasebook.Proofs.Calls
import Phrasebook.Proofs.Paths
import Phrasebook.Proofs.Arguments
import Phrasebook.Proofs.Outcome
import Phrasebook.Proofs.SurrogatePairs
import Phrasebook.Proofs.JsonStrings
import Phrasebook.Proofs.Provenance
import Phrasebook.Proofs.RoundTrip
import Phrasebook.Proofs.Scripts
import Phrasebook.Proofs.TidyTrees
import Phrasebook.Proofs.Lines
import Phrasebook.Proofs.Reordering
import Phrasebook.Proofs.Locations
import Phrasebook.Proofs.MessageIds
import Phrasebook.Proofs.Endings
import Phrasebook.Proofs.LiteralValues
import Phrasebook.Proofs.Reachable
import Phrasebook.Proofs.FileByFile
import Phrasebook.Proofs.FailFast
import Phrasebook.Proofs.Placeholders
import Phrasebook.Proofs.Parentheses
import Phrasebook.Proofs.Untranslatable
import Phrasebook.Proofs.DistinctPayloads
import Phrasebook.Proofs.LiteralFailures
import Phrasebook.Proofs.TypeAttributes
import Phrasebook.Proofs.LinkCycles
import Phrasebook.Proofs.PlacesFirst
import Phrasebook.Proofs.CommentWords
import Phrasebook.Proofs.Building
import Phrasebook.Proofs.Decoding
import Phrasebook.Proofs.DepthFirst
import Phrasebook.Proofs.FirstErrors
import Phrasebook.Proofs.ByteOrder
import Phrasebook.Proofs.IntegerLiterals
import Phrasebook.Proofs.Extensions
import Phrasebook.Proofs.Lexemes
import Phrasebook.Proofs.Halting
import Phrasebook.Proofs.HaltingGrammar
