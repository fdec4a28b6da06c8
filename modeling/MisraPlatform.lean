import MisraPlatform.Proof.AnalysisCache
import MisraPlatform.Proof.BulkExport
import MisraPlatform.Proof.CompileDb
import MisraPlatform.Proof.ConcurrentReviews
import MisraPlatform.Proof.Declarations
import MisraPlatform.Proof.DeclaringFiles
import MisraPlatform.Proof.Directives
import MisraPlatform.Proof.ElseIfChains
import MisraPlatform.Proof.EnumUnderlyingTypes
import MisraPlatform.Proof.Enumerators
import MisraPlatform.Proof.Exits
import MisraPlatform.Proof.Exports
import MisraPlatform.Proof.Expressions
import MisraPlatform.Proof.FingerprintStability
import MisraPlatform.Proof.Gateway
import MisraPlatform.Proof.IncrementalRuns
import MisraPlatform.Proof.Initializers
import MisraPlatform.Proof.IntegerConstants
import MisraPlatform.Proof.LinkageAgreement
import MisraPlatform.Proof.LinkedCalls
import MisraPlatform.Proof.LoopTermination
import MisraPlatform.Proof.NodeRules
import MisraPlatform.Proof.NullFacts
import MisraPlatform.Proof.Occurrences
import MisraPlatform.Proof.OperandOrder
import MisraPlatform.Proof.PatchHunks
import MisraPlatform.Proof.PathPrecision
import MisraPlatform.Proof.PointerRuns
import MisraPlatform.Proof.PriorDeclarations
import MisraPlatform.Proof.PruningFlow
import MisraPlatform.Proof.Renaming
import MisraPlatform.Proof.ReturnValues
import MisraPlatform.Proof.RuleDispatcher
import MisraPlatform.Proof.RuleRegistry
import MisraPlatform.Proof.Shadowing
import MisraPlatform.Proof.SourceLines
import MisraPlatform.Proof.StorageDurations
import MisraPlatform.Proof.StreamUses
import MisraPlatform.Proof.StructuralTyping
import MisraPlatform.Proof.SwitchLabels
import MisraPlatform.Proof.TextOrder
import MisraPlatform.Proof.Unreachability
import MisraPlatform.Proof.WireContract
