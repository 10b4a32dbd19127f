import QueryCheck.Syntax.Document
import QueryCheck.Syntax.Kind
import QueryCheck.Token.Lexer
import QueryCheck.Error
import QueryCheck.Reading.Basic
import QueryCheck.Reading.Selection
import QueryCheck.Reading.Document
import QueryCheck.Reading.Source
import QueryCheck.Named
import QueryCheck.Schema.Basic
import QueryCheck.Schema.Builtin
import QueryCheck.Schema.Definitions
import QueryCheck.Schema.Equivalence
import QueryCheck.Schema.Link
import QueryCheck.Schema.Source
import QueryCheck.Path
import QueryCheck.Traversal.Composite
import QueryCheck.Traversal.Outline
import QueryCheck.Traversal.Root
import QueryCheck.Traversal.Walk
import QueryCheck.TypeInfo
import QueryCheck.Validation.Context
import QueryCheck.Validation.Outcome
import QueryCheck.Proofs.Named
import QueryCheck.Proofs.Text.Rows
import QueryCheck.Proofs.Syntax.Variables
import QueryCheck.Proofs.Traversal.Events
import QueryCheck.Proofs.Traversal.Walk
import QueryCheck.Proofs.Traversal.Stream
import QueryCheck.Proofs.Traversal.Lockstep
import QueryCheck.Proofs.Traversal.Transparency
import QueryCheck.Proofs.Traversal.Chain
import QueryCheck.Proofs.Validation.TypeTracking
import QueryCheck.Proofs.Validation.Unlimited
import QueryCheck.Proofs.Validation.RuleIndependence
import QueryCheck.Proofs.Validation.TypedCheck
import QueryCheck.Proofs.Validation.ErrorLimit
import QueryCheck.Proofs.Traversal.Inside
import QueryCheck.Proofs.Traversal.Following
import QueryCheck.Proofs.Validation.Reuse
import QueryCheck.Proofs.Validation.NamingRules
import QueryCheck.Proofs.Validation.VariableUses
import QueryCheck.Proofs.Validation.Problems
import QueryCheck.Proofs.Validation.DefinedVariables
import QueryCheck.Proofs.Validation.DefinitionOrder
import QueryCheck.Proofs.Validation.Blame
import QueryCheck.Proofs.Reading.Scan
import QueryCheck.Proofs.Reading.Recognition
import QueryCheck.Proofs.Reading.Prediction
import QueryCheck.Proofs.Reading.Grammar
import QueryCheck.Proofs.Reading.Phrases
import QueryCheck.Proofs.Reading.Selections
import QueryCheck.Proofs.Reading.Documents
import QueryCheck.Proofs.Reading.Rendering
import QueryCheck.Proofs.Reading.Failure
import QueryCheck.Proofs.Reading.Surroundings
import QueryCheck.Proofs.Reading.Spreading
import QueryCheck.Proofs.Reading.Halting
import QueryCheck.Proofs.Schema.Grammar
import QueryCheck.Proofs.Schema.Phrases
import QueryCheck.Proofs.Schema.Types
import QueryCheck.Proofs.Schema.Texts
import QueryCheck.Proofs.Schema.Halting
import QueryCheck.Proofs.Schema.PossibleTypes
import QueryCheck.Proofs.Schema.Linking
import QueryCheck.Proofs.Schema.Closure
import QueryCheck.Proofs.Schema.DeclarationOrder
import QueryCheck.Proofs.Token.Spelling
import QueryCheck.Proofs.Token.Words
import QueryCheck.Proofs.Token.Printing
import QueryCheck.Proofs.Token.QuotedStrings
import QueryCheck.Proofs.Token.BlockSpelling
import QueryCheck.Proofs.Token.BlockEnd
import QueryCheck.Proofs.Token.BlockStrings
import QueryCheck.Proofs.Token.CutTokens
import QueryCheck.Proofs.Token.LongestMatch
import QueryCheck.Proofs.Token.Spans
import QueryCheck.Proofs.Path
import QueryCheck.Proofs.Schema.TypeRefs
import QueryCheck.Proofs.Error.Failures
import QueryCheck.Proofs.Error.Offsets
import QueryCheck.Proofs.Error.MarkedLine
import QueryCheck.Proofs.Traversal.Parts
import QueryCheck.Proofs.Traversal.Replay
import QueryCheck.Proofs.Traversal.Entered
import QueryCheck.Proofs.Traversal.Awake
import QueryCheck.Proofs.Traversal.Restart
import QueryCheck.Proofs.Validation.DocumentNames
import QueryCheck.Proofs.Validation.ArgumentNames
import QueryCheck.Proofs.Validation.SpreadOrder
import QueryCheck.Proofs.Validation.UndefinedVariables
