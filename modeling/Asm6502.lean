import Asm6502.Byte
import Asm6502.Command
import Asm6502.Diagnostic
import Asm6502.Diagnostic.Margin
import Asm6502.Diagnostic.Snippet
import Asm6502.Dialect
import Asm6502.Dialect.Keyword
import Asm6502.Dialect.Vocabulary
import Asm6502.Folder
import Asm6502.Kind
import Asm6502.KindSet
import Asm6502.Line
import Asm6502.Line.Arguments
import Asm6502.Line.Cause
import Asm6502.Line.Draft
import Asm6502.Line.Expression
import Asm6502.Line.Operand
import Asm6502.Line.Operator
import Asm6502.Line.Statement
import Asm6502.Main
import Asm6502.Number
import Asm6502.Parse
import Asm6502.Parse.Outcome
import Asm6502.Parse.Reading
import Asm6502.Parse.Reuse
import Asm6502.Proofs.AcceptedQueries
import Asm6502.Proofs.AddressingModes
import Asm6502.Proofs.AgreeingWalks
import Asm6502.Proofs.ArenaFaithful
import Asm6502.Proofs.ArenaLayout
import Asm6502.Proofs.ArenaPlaces
import Asm6502.Proofs.ArenaWalks
import Asm6502.Proofs.AstrayTokens
import Asm6502.Proofs.BalancedCalls
import Asm6502.Proofs.BareTrees
import Asm6502.Proofs.BlockReports
import Asm6502.Proofs.BlockStructure
import Asm6502.Proofs.BracedDrafts
import Asm6502.Proofs.BracedLists
import Asm6502.Proofs.BracedTokens
import Asm6502.Proofs.BracketedLogs
import Asm6502.Proofs.BuilderCalls
import Asm6502.Proofs.BuilderPlans
import Asm6502.Proofs.BuiltTrees
import Asm6502.Proofs.CaseBlindness
import Asm6502.Proofs.ChunkedReading
import Asm6502.Proofs.ClosedBoundaries
import Asm6502.Proofs.CommentPlaces
import Asm6502.Proofs.CommentTokens
import Asm6502.Proofs.ConstantFolding
import Asm6502.Proofs.Constants
import Asm6502.Proofs.CursorMoves
import Asm6502.Proofs.CursorWalks
import Asm6502.Proofs.DiagnosticOrder
import Asm6502.Proofs.DisciplinedLogs
import Asm6502.Proofs.DraftCongruence
import Asm6502.Proofs.DraftMoves
import Asm6502.Proofs.DraftRules
import Asm6502.Proofs.DrawnLines
import Asm6502.Proofs.EditPoints
import Asm6502.Proofs.EditedTexts
import Asm6502.Proofs.ErrorNodes
import Asm6502.Proofs.ErrorReports
import Asm6502.Proofs.EventLogs
import Asm6502.Proofs.ExchangedLines
import Asm6502.Proofs.ExchangedLists
import Asm6502.Proofs.ExchangedReadings
import Asm6502.Proofs.ExpressionMoves
import Asm6502.Proofs.ExpressionParts
import Asm6502.Proofs.ExpressionWriting
import Asm6502.Proofs.FencedTokens
import Asm6502.Proofs.FirstBytes
import Asm6502.Proofs.GrammarCongruence
import Asm6502.Proofs.KnownValues
import Asm6502.Proofs.LaidOutTokens
import Asm6502.Proofs.LayoutBlindness
import Asm6502.Proofs.LetterCase
import Asm6502.Proofs.LineCommands
import Asm6502.Proofs.LineContexts
import Asm6502.Proofs.LineRules
import Asm6502.Proofs.LineShape
import Asm6502.Proofs.LineTails
import Asm6502.Proofs.LineWriting
import Asm6502.Proofs.LockstepDrafts
import Asm6502.Proofs.LockstepGrammar
import Asm6502.Proofs.LoopBounds
import Asm6502.Proofs.MatchEnumeration
import Asm6502.Proofs.NamedKinds
import Asm6502.Proofs.NumberNotations
import Asm6502.Proofs.Numerals
import Asm6502.Proofs.OfferedChildren
import Asm6502.Proofs.OperandParentheses
import Asm6502.Proofs.OperandReading
import Asm6502.Proofs.OperandTerms
import Asm6502.Proofs.OperatorPowers
import Asm6502.Proofs.ParseShape
import Asm6502.Proofs.PassageLists
import Asm6502.Proofs.PassageTexts
import Asm6502.Proofs.Passages
import Asm6502.Proofs.PatternEmbedding
import Asm6502.Proofs.PlaceNeighbours
import Asm6502.Proofs.PlannedCandidates
import Asm6502.Proofs.PositionLookups
import Asm6502.Proofs.PrintedInstructions
import Asm6502.Proofs.PrintedQueries
import Asm6502.Proofs.PrintedTerms
import Asm6502.Proofs.QueryLexing
import Asm6502.Proofs.QueryPhrases
import Asm6502.Proofs.QueryReadings
import Asm6502.Proofs.ReadingCourse
import Asm6502.Proofs.ReadingLogs
import Asm6502.Proofs.ReadingShift
import Asm6502.Proofs.ReferenceArithmetic
import Asm6502.Proofs.RefusedTexts
import Asm6502.Proofs.RenderedLines
import Asm6502.Proofs.Reparse
import Asm6502.Proofs.ResolvedLogs
import Asm6502.Proofs.ReuseExact
import Asm6502.Proofs.RootShape
import Asm6502.Proofs.Scaffolds
import Asm6502.Proofs.ScanLocality
import Asm6502.Proofs.ScannedKinds
import Asm6502.Proofs.SelectedPlaces
import Asm6502.Proofs.SketchForest
import Asm6502.Proofs.Snapshots
import Asm6502.Proofs.SpacedTokens
import Asm6502.Proofs.Spellings
import Asm6502.Proofs.StoppedReparse
import Asm6502.Proofs.StrayRuns
import Asm6502.Proofs.Stretches
import Asm6502.Proofs.TakenOver
import Asm6502.Proofs.TermReading
import Asm6502.Proofs.Terms
import Asm6502.Proofs.TextPlaces
import Asm6502.Proofs.TidyStretches
import Asm6502.Proofs.TokenLines
import Asm6502.Proofs.TokensAlone
import Asm6502.Proofs.TreeFrames
import Asm6502.Proofs.TreePlaces
import Asm6502.Proofs.TreeShape
import Asm6502.Proofs.TriviaPlacement
import Asm6502.Proofs.TwinDrafts
import Asm6502.Proofs.TwinReadings
import Asm6502.Proofs.WalkEvents
import Asm6502.Proofs.Writing
import Asm6502.Proofs.WritingRules
import Asm6502.Proofs.WrittenPlaces
import Asm6502.Proofs.WrittenTexts
import Asm6502.Proofs.WrittenTrees
import Asm6502.Proofs.WrongEdits
import Asm6502.Query.Compile
import Asm6502.Query.Match
import Asm6502.Query.Pattern
import Asm6502.Query.Search
import Asm6502.Query.Token
import Asm6502.Span
import Asm6502.Text.Chunks
import Asm6502.Text.Edit
import Asm6502.Text.Point
import Asm6502.Text.Printable
import Asm6502.Text.Quoted
import Asm6502.Text.Ranges
import Asm6502.Text.Row
import Asm6502.Text.SourceFile
import Asm6502.Text.Utf8
import Asm6502.Text.Width
import Asm6502.Token
import Asm6502.Token.Scan
import Asm6502.Token.Scanner
import Asm6502.Tree
import Asm6502.Tree.Arena
import Asm6502.Tree.Builder
import Asm6502.Tree.Cursor
import Asm6502.Tree.Locate
import Asm6502.Tree.Outline
import Asm6502.Tree.Place
import Asm6502.Tree.Sketch
import Asm6502.Tree.Spelled
import Asm6502.Tree.Step
import Asm6502.Tree.Walk
import Asm6502.Tree.Workshop
import Asm6502.View.Arithmetic
import Asm6502.View.Block
import Asm6502.View.Expression
import Asm6502.View.Operand
import Asm6502.View.Select
import Asm6502.View.Statement
