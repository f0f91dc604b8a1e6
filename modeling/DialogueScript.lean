import DialogueScript.Position
import DialogueScript.Blank
import DialogueScript.Lines
import DialogueScript.CharTable
import DialogueScript.Quoting
import DialogueScript.Double
import DialogueScript.Decimal
import DialogueScript.Token
import DialogueScript.ScriptError
import DialogueScript.Cursor
import DialogueScript.Scanner
import DialogueScript.Lexing
import DialogueScript.Operator
import DialogueScript.Expression
import DialogueScript.Program
import DialogueScript.Unplaced
import DialogueScript.Rendering
import DialogueScript.TokenStream
import DialogueScript.ParseExpression
import DialogueScript.ParseStatement
import DialogueScript.ParseProgram
import DialogueScript.Reading
import DialogueScript.ValueType
import DialogueScript.Finding
import DialogueScript.Folding
import DialogueScript.Typing
import DialogueScript.Digraph
import DialogueScript.Cycles
import DialogueScript.References
import DialogueScript.NodeChecks
import DialogueScript.FlowChecks
import DialogueScript.VariableChecks
import DialogueScript.Analysis
import DialogueScript.Analyzer
import DialogueScript.Check
import DialogueScript.JsonValue
import DialogueScript.StoryGraph
import DialogueScript.Report
import DialogueScript.Arguments
import DialogueScript.CommandLine
import DialogueScript.Main
import DialogueScript.Proofs.Grammar
import DialogueScript.Proofs.ParseOutcome
import DialogueScript.Proofs.ExpressionSound
import DialogueScript.Proofs.ExpressionComplete
import DialogueScript.Proofs.RecursiveDescent
import DialogueScript.Proofs.StatementParsing
import DialogueScript.Proofs.LexedTokens
import DialogueScript.Proofs.ProgramParsing
import DialogueScript.Proofs.Rounding
import DialogueScript.Proofs.Numerals
import DialogueScript.Proofs.Renderable
import DialogueScript.Proofs.TreeTokens
import DialogueScript.Proofs.TreeLexemes
import DialogueScript.Proofs.Scanning
import DialogueScript.Proofs.RenderedExpression
import DialogueScript.Proofs.RenderedStatement
import DialogueScript.Proofs.RoundTrip
import DialogueScript.Proofs.Validity
import DialogueScript.Proofs.Reachability
import DialogueScript.Proofs.CycleSearch
import DialogueScript.Proofs.CycleCover
import DialogueScript.Proofs.GotoCycles
import DialogueScript.Proofs.ScanSteps
import DialogueScript.Proofs.Layout
import DialogueScript.Proofs.LineTracking
import DialogueScript.Proofs.Streaming
import DialogueScript.Proofs.LineLocality
import DialogueScript.Proofs.BlockRecovery
import DialogueScript.Proofs.NodeLoop
import DialogueScript.Proofs.NodeRecovery
import DialogueScript.Proofs.NodeOrder
import DialogueScript.Proofs.ScanOrder
import DialogueScript.Proofs.TokenOrder
import DialogueScript.Proofs.TokenSpans
import DialogueScript.Proofs.SameLines
import DialogueScript.Proofs.ScanEcho
import DialogueScript.Proofs.BlankLines
import DialogueScript.Proofs.UnreachableNodes
import DialogueScript.Proofs.AnalyzerState
import DialogueScript.Proofs.StreamedCheck
import DialogueScript.Proofs.SpanOrder
import DialogueScript.Proofs.ErrorPlaces
import DialogueScript.Proofs.FindingPlaces
import DialogueScript.Proofs.NoticePlaces
import DialogueScript.Proofs.AssignmentTypes
import DialogueScript.Proofs.ParentLinks
import DialogueScript.Proofs.ShortestCycle
import DialogueScript.Proofs.LowlinkFrames
import DialogueScript.Proofs.LowlinkWalk
import DialogueScript.Proofs.Components
import DialogueScript.Proofs.CyclePaths
import DialogueScript.Proofs.StringLiterals
import DialogueScript.Proofs.ParseProgress
import DialogueScript.Proofs.StreamEnd
import DialogueScript.Proofs.PlaceholderRanges
import DialogueScript.Proofs.ExportedGraph
import DialogueScript.Proofs.Addresses
import DialogueScript.Proofs.VariableFindings
import DialogueScript.Proofs.ErrorCharges
import DialogueScript.Proofs.ErrorOrder
import DialogueScript.Proofs.ConstantConditions
import DialogueScript.Proofs.NumberSpellings
import DialogueScript.Proofs.Excerpts
import DialogueScript.Proofs.RepeatedRoots
import DialogueScript.Proofs.BlockLevels
import DialogueScript.Proofs.UnknownTypes
