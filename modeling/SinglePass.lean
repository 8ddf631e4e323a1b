import SinglePass.WordList
import SinglePass.Simple.Script
import SinglePass.FileTree
import SinglePass.Main
import SinglePass.Proofs.Discipline
import SinglePass.Proofs.FailFast
import SinglePass.Proofs.Syntax
import SinglePass.Proofs.Walk
import SinglePass.Proofs.Rules
import SinglePass.Proofs.Facing
import SinglePass.Proofs.Dispatch
import SinglePass.Proofs.Recognition.Declarations
import SinglePass.Proofs.Recognition.Statements
import SinglePass.Proofs.ParseThenCheck
import SinglePass.Proofs.Settling.Passes
import SinglePass.Proofs.Settling.Settles
import SinglePass.Proofs.Settling.Expressions
import SinglePass.Proofs.Settling.Declarations
import SinglePass.Proofs.Settling.Statements
import SinglePass.Proofs.CorrectPrefix
import SinglePass.Proofs.StaticRules
import SinglePass.Proofs.FaultFree.Expressions
import SinglePass.Proofs.FaultFree.Programs
import SinglePass.Proofs.Acceptance
import SinglePass.Proofs.Scanning.Lossless
import SinglePass.Proofs.Termination.Grammars
import SinglePass.Proofs.Engine.Strategies
import SinglePass.Proofs.Lookahead
import SinglePass.Proofs.ScopeDiscipline
import SinglePass.Proofs.Engine.Advance
import SinglePass.Proofs.Silence.Reports
import SinglePass.Proofs.Correspondence.Reports
import SinglePass.Proofs.ScopeRefinement
import SinglePass.Proofs.Correspondence.Meaning
import SinglePass.Proofs.Correspondence.Failures
import SinglePass.Proofs.Scanning.Bytes
import SinglePass.Proofs.Scanning.Calls
import SinglePass.Proofs.WordLists.Acceptance
import SinglePass.Proofs.Anchoring.Reports
import SinglePass.Proofs.Command.Checking
import SinglePass.Proofs.Scanning.Flattened
import SinglePass.Proofs.Scanning.LongestMatch
import SinglePass.Proofs.Scanning.RoundTrip
import SinglePass.Proofs.Command.TreeCollecting
import SinglePass.Proofs.Scanning.LineByLine
import SinglePass.Proofs.Engine.Requiring
import SinglePass.Proofs.Declaring
import SinglePass.Proofs.Indexing
import SinglePass.Proofs.Ranges
import SinglePass.Proofs.ScopeBrackets
import SinglePass.Proofs.Values.Exactness
import SinglePass.Proofs.Values.Dimensions
import SinglePass.Proofs.ScopeDepth
import SinglePass.Proofs.Engine.Recording
import SinglePass.Proofs.Command.TokenListing
import SinglePass.Proofs.Command.Modes
