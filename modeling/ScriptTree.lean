import ScriptTree.CommandLine
import ScriptTree.Diagnostic
import ScriptTree.Field
import ScriptTree.Grammar.Basic
import ScriptTree.Grammar.Declarations
import ScriptTree.Grammar.Expressions
import ScriptTree.Grammar.Items
import ScriptTree.Grammar.Members
import ScriptTree.Grammar.Statements
import ScriptTree.Grammar.States
import ScriptTree.Grammar.Types
import ScriptTree.Kind
import ScriptTree.Kind.Class
import ScriptTree.Kind.Set
import ScriptTree.Lexer
import ScriptTree.Lexer.Cursor
import ScriptTree.Lexer.Keyword
import ScriptTree.Lexer.Layout
import ScriptTree.Lexer.Number
import ScriptTree.Lexer.Operator
import ScriptTree.Lexer.Quoted
import ScriptTree.Lexer.Scan
import ScriptTree.Lexer.StateWord
import ScriptTree.Literal
import ScriptTree.Literal.Binary64
import ScriptTree.Literal.Error
import ScriptTree.Literal.Float
import ScriptTree.Literal.Integer
import ScriptTree.Literal.Quoted
import ScriptTree.Main
import ScriptTree.Parse
import ScriptTree.Parser.Bounded
import ScriptTree.Parser.Describe
import ScriptTree.Parser.Event
import ScriptTree.Parser.Phrase
import ScriptTree.Parser.State
import ScriptTree.Precedence
import ScriptTree.Proofs.BoundedRecursion
import ScriptTree.Proofs.BracedBodies
import ScriptTree.Proofs.ClosingQuotes
import ScriptTree.Proofs.Containment
import ScriptTree.Proofs.FloatLiterals
import ScriptTree.Proofs.Grammar.Alike
import ScriptTree.Proofs.Grammar.Climb
import ScriptTree.Proofs.Grammar.Contracts
import ScriptTree.Proofs.Grammar.Declaration
import ScriptTree.Proofs.Grammar.Endings
import ScriptTree.Proofs.Grammar.File
import ScriptTree.Proofs.Grammar.Filled
import ScriptTree.Proofs.Grammar.Filling
import ScriptTree.Proofs.Grammar.Grouped
import ScriptTree.Proofs.Grammar.Items
import ScriptTree.Proofs.Grammar.Needs
import ScriptTree.Proofs.Grammar.Scan
import ScriptTree.Proofs.Grammar.Sight
import ScriptTree.Proofs.Grammar.Sound
import ScriptTree.Proofs.Grammar.Types
import ScriptTree.Proofs.Grouping
import ScriptTree.Proofs.Independence
import ScriptTree.Proofs.IntegerLiterals
import ScriptTree.Proofs.Kind.Set
import ScriptTree.Proofs.LayoutForms
import ScriptTree.Proofs.LeastCover
import ScriptTree.Proofs.LetterCase
import ScriptTree.Proofs.Lexer.Abreast
import ScriptTree.Proofs.Lexer.Angle
import ScriptTree.Proofs.Lexer.Approach
import ScriptTree.Proofs.Lexer.Bare
import ScriptTree.Proofs.Lexer.Carriage
import ScriptTree.Proofs.Lexer.Case
import ScriptTree.Proofs.Lexer.Decimal
import ScriptTree.Proofs.Lexer.Fault
import ScriptTree.Proofs.Lexer.LineEnd
import ScriptTree.Proofs.Lexer.Operator
import ScriptTree.Proofs.Lexer.Ordinary
import ScriptTree.Proofs.Lexer.Quoted
import ScriptTree.Proofs.Lexer.Reading
import ScriptTree.Proofs.Lexer.Scan
import ScriptTree.Proofs.Lexer.Shift
import ScriptTree.Proofs.Lexer.Sign
import ScriptTree.Proofs.Lexer.Slots
import ScriptTree.Proofs.Lexer.Spelling
import ScriptTree.Proofs.Lexer.Standing
import ScriptTree.Proofs.Lexer.StateLine
import ScriptTree.Proofs.Lexer.StateWord
import ScriptTree.Proofs.Lexer.WordEnd
import ScriptTree.Proofs.LexicalErrors
import ScriptTree.Proofs.LineEndings
import ScriptTree.Proofs.Literal.Escape
import ScriptTree.Proofs.Localized
import ScriptTree.Proofs.Lossless
import ScriptTree.Proofs.Markers
import ScriptTree.Proofs.MaximalMunch
import ScriptTree.Proofs.MemberAccess
import ScriptTree.Proofs.NestingLimit
import ScriptTree.Proofs.NodePointers
import ScriptTree.Proofs.Outlines
import ScriptTree.Proofs.Parser.Account
import ScriptTree.Proofs.Parser.Alike
import ScriptTree.Proofs.Parser.Answer
import ScriptTree.Proofs.Parser.Arrangement
import ScriptTree.Proofs.Parser.Bounded
import ScriptTree.Proofs.Parser.Calls
import ScriptTree.Proofs.Parser.Draft
import ScriptTree.Proofs.Parser.Drawing
import ScriptTree.Proofs.Parser.Extent
import ScriptTree.Proofs.Parser.Footing
import ScriptTree.Proofs.Parser.Frame
import ScriptTree.Proofs.Parser.Frank
import ScriptTree.Proofs.Parser.Growth
import ScriptTree.Proofs.Parser.Making
import ScriptTree.Proofs.Parser.Matching
import ScriptTree.Proofs.Parser.Nesting
import ScriptTree.Proofs.Parser.Opening
import ScriptTree.Proofs.Parser.Pattern
import ScriptTree.Proofs.Parser.Quiet
import ScriptTree.Proofs.Parser.Record
import ScriptTree.Proofs.Parser.Recording
import ScriptTree.Proofs.Parser.Refusal
import ScriptTree.Proofs.Parser.Roaming
import ScriptTree.Proofs.Parser.Runs
import ScriptTree.Proofs.Parser.Shift
import ScriptTree.Proofs.Parser.Skip
import ScriptTree.Proofs.Parser.Slots
import ScriptTree.Proofs.Parser.Steps
import ScriptTree.Proofs.Parser.Tidy
import ScriptTree.Proofs.Parser.Uniform
import ScriptTree.Proofs.Placement
import ScriptTree.Proofs.Precedence
import ScriptTree.Proofs.Probes
import ScriptTree.Proofs.Progress
import ScriptTree.Proofs.PrunedWalks
import ScriptTree.Proofs.Recovery.Confined
import ScriptTree.Proofs.Recovery.Head
import ScriptTree.Proofs.Recovery.Mishaps
import ScriptTree.Proofs.Recovery.Reach
import ScriptTree.Proofs.Recovery.Skipping
import ScriptTree.Proofs.Recovery.StateLines
import ScriptTree.Proofs.Recovery.Watching
import ScriptTree.Proofs.Relayout
import ScriptTree.Proofs.Relexing
import ScriptTree.Proofs.Reported
import ScriptTree.Proofs.Signs
import ScriptTree.Proofs.SolidNodes
import ScriptTree.Proofs.Speculation
import ScriptTree.Proofs.StateWords
import ScriptTree.Proofs.StringLiterals
import ScriptTree.Proofs.Text.Boundary
import ScriptTree.Proofs.Tiling
import ScriptTree.Proofs.TokensAtOffsets
import ScriptTree.Proofs.Tree.Alike
import ScriptTree.Proofs.Tree.Arena
import ScriptTree.Proofs.Tree.Built
import ScriptTree.Proofs.Tree.Compact
import ScriptTree.Proofs.Tree.Document
import ScriptTree.Proofs.Tree.Family
import ScriptTree.Proofs.Tree.Lay
import ScriptTree.Proofs.Tree.Parts
import ScriptTree.Proofs.Tree.Places
import ScriptTree.Proofs.Tree.Pointers
import ScriptTree.Proofs.Tree.Shape
import ScriptTree.Proofs.Tree.Shift
import ScriptTree.Proofs.Tree.Shown
import ScriptTree.Proofs.Tree.Walk
import ScriptTree.Proofs.TreeDepth
import ScriptTree.Proofs.TreeTables
import ScriptTree.Proofs.TypedViews
import ScriptTree.Report
import ScriptTree.Text.Blank
import ScriptTree.Text.Hidden
import ScriptTree.Text.Json
import ScriptTree.Text.Letter
import ScriptTree.Text.Lines
import ScriptTree.Text.Quoted
import ScriptTree.Text.Ranges
import ScriptTree.Text.Slice
import ScriptTree.Text.Span
import ScriptTree.Token
import ScriptTree.Tree
import ScriptTree.Tree.Builder
import ScriptTree.Tree.Dump
import ScriptTree.Tree.Locate
import ScriptTree.Tree.Navigate
import ScriptTree.Tree.Outline
import ScriptTree.Tree.OutlineJson
import ScriptTree.Tree.Walk
import ScriptTree.Trivia
import ScriptTree.View.Basic
import ScriptTree.View.Definition
import ScriptTree.View.Expression
import ScriptTree.View.State
import ScriptTree.View.Statement
import ScriptTree.Workspace
