import SchemaAtlas.Number.Shortest
import SchemaAtlas.Json.Printer
import SchemaAtlas.Json.Reader
import SchemaAtlas.Json.Pointer
import SchemaAtlas.Schema.Kind
import SchemaAtlas.Schema.Reference
import SchemaAtlas.Schema.Node
import SchemaAtlas.Document.Basic
import SchemaAtlas.Failure
import SchemaAtlas.Schema.Descriptor
import SchemaAtlas.Document.Json
import SchemaAtlas.Graph.Analysis
import SchemaAtlas.Emission.Boundary
import SchemaAtlas.Emission.Region
import SchemaAtlas.Builder.Diagnostic
import SchemaAtlas.OpenApi.Place
import SchemaAtlas.OpenApi.Members
import SchemaAtlas.OpenApi.Resolution
import SchemaAtlas.OpenApi.Version
import SchemaAtlas.OpenApi.Build
import SchemaAtlas.Script.Cursor
import SchemaAtlas.Script.Token
import SchemaAtlas.Script.Reading
import SchemaAtlas.Script.Grammar.Literals
import SchemaAtlas.Script.Grammar.Patterns
import SchemaAtlas.Script.Grammar.Types
import SchemaAtlas.Script.Grammar.Expressions
import SchemaAtlas.Script.Grammar.Modules
import SchemaAtlas.Script.Literal
import SchemaAtlas.Script.Scope
import SchemaAtlas.Builder.Bindings
import SchemaAtlas.Builder.Chain
import SchemaAtlas.Builder.Declaration
import SchemaAtlas.Builder.Constraint
import SchemaAtlas.Builder.Lowering.Basic
import SchemaAtlas.Builder.Lowering.Collection
import SchemaAtlas.Builder.Lowering.Expression
import SchemaAtlas.Builder.ClosestName
import SchemaAtlas.Builder.Lint
import SchemaAtlas.Builder.Parse
import SchemaAtlas.Number.Extended
import SchemaAtlas.Settings.Setting
import SchemaAtlas.Toml.Reader
import SchemaAtlas.Files.Access
import SchemaAtlas.Toml.Printer
import SchemaAtlas.Yaml.Cursor
import SchemaAtlas.Yaml.Scalar
import SchemaAtlas.Yaml.Text
import SchemaAtlas.Yaml.Reader
import SchemaAtlas.Settings.Layers
import SchemaAtlas.Settings.Load
import SchemaAtlas.Command.Arguments
import SchemaAtlas.Command.Report
import SchemaAtlas.Command.Run
import SchemaAtlas.Main
import SchemaAtlas.Proofs.Entries
import SchemaAtlas.Proofs.Reachability
import SchemaAtlas.Proofs.EmissionOrder
import SchemaAtlas.Proofs.CycleDetector
import SchemaAtlas.Proofs.Boundary
import SchemaAtlas.Proofs.Analysis
import SchemaAtlas.Proofs.Deferral
import SchemaAtlas.Proofs.SchemaReading
import SchemaAtlas.Proofs.SchemaShape
import SchemaAtlas.Proofs.Build
import SchemaAtlas.Proofs.Constraints
import SchemaAtlas.Proofs.Lowering
import SchemaAtlas.Proofs.ChainState
import SchemaAtlas.Proofs.Pointer
import SchemaAtlas.Proofs.ScriptDocument
import SchemaAtlas.Proofs.PlacedSchemas
import SchemaAtlas.Proofs.DocumentNodes
import SchemaAtlas.Proofs.PlacedOperations
import SchemaAtlas.Proofs.ErrorPlaces
import SchemaAtlas.Proofs.ReferenceClosure
import SchemaAtlas.Proofs.JsonRecord
import SchemaAtlas.Proofs.DocumentRecord
import SchemaAtlas.Proofs.FirstAppearances
import SchemaAtlas.Proofs.SourceDependencies
import SchemaAtlas.Proofs.DerivedMetadata
import SchemaAtlas.Proofs.DeclarationFates
import SchemaAtlas.Proofs.MetadataCoherence
import SchemaAtlas.Proofs.DanglingReferences
import SchemaAtlas.Proofs.RecursiveVisit
import SchemaAtlas.Proofs.Reanalysis
import SchemaAtlas.Proofs.CycleGroups
import SchemaAtlas.Proofs.SharedComponents
import SchemaAtlas.Proofs.Dependents
import SchemaAtlas.Proofs.ChainCalls
import SchemaAtlas.Proofs.NestingCeiling
import SchemaAtlas.Proofs.LoweringSteps
import SchemaAtlas.Proofs.ChainNesting
import SchemaAtlas.Proofs.Presence
import SchemaAtlas.Proofs.CycleMarks
import SchemaAtlas.Proofs.ComponentOrder
import SchemaAtlas.Proofs.ReferenceChains
import SchemaAtlas.Proofs.EffectiveParameters
import SchemaAtlas.Proofs.NumberValues
import SchemaAtlas.Proofs.TypeAlternatives
import SchemaAtlas.Proofs.WrittenReferences
import SchemaAtlas.Proofs.KeptUnless
import SchemaAtlas.Proofs.BuildTerms
import SchemaAtlas.Proofs.RaisedBuild
import SchemaAtlas.Proofs.SchemaIndependence
import SchemaAtlas.Proofs.RaisedCeiling
import SchemaAtlas.Proofs.BoundingCalls
import SchemaAtlas.Proofs.PresenceLayers
import SchemaAtlas.Proofs.ScriptScopes
import SchemaAtlas.Proofs.BlockScopes
import SchemaAtlas.Proofs.PairedLists
import SchemaAtlas.Proofs.LikeTrees
import SchemaAtlas.Proofs.UnplacedTrees
import SchemaAtlas.Proofs.ChainReading
import SchemaAtlas.Proofs.AlikeSites
import SchemaAtlas.Proofs.AlikeCalls
import SchemaAtlas.Proofs.AlikeLowering
import SchemaAtlas.Proofs.Laziness
import SchemaAtlas.Proofs.ReferenceScopes
import SchemaAtlas.Proofs.SchemaDeclarators
import SchemaAtlas.Proofs.DeclarationKinds
import SchemaAtlas.Proofs.ChainCuts
import SchemaAtlas.Proofs.LintFindings
import SchemaAtlas.Proofs.EnumNumbering
import SchemaAtlas.Proofs.Rounding
import SchemaAtlas.Proofs.ScriptReading
import SchemaAtlas.Proofs.WrittenNumbers
import SchemaAtlas.Proofs.QuotedTexts
import SchemaAtlas.Proofs.LiteralTexts
import SchemaAtlas.Proofs.LiteralValues
import SchemaAtlas.Proofs.LiteralTokens
import SchemaAtlas.Proofs.LiteralReading
import SchemaAtlas.Proofs.LiteralScripts
import SchemaAtlas.Proofs.ScriptOutlines
import SchemaAtlas.Proofs.DeclarationIndependence
import SchemaAtlas.Proofs.ScriptSpots
import SchemaAtlas.Proofs.SpotReading
import SchemaAtlas.Proofs.SpotPatterns
import SchemaAtlas.Proofs.SpotTypes
import SchemaAtlas.Proofs.SpotExpressions
import SchemaAtlas.Proofs.SpotStatements
import SchemaAtlas.Proofs.ParsedSpots
import SchemaAtlas.Proofs.FindingCounts
import SchemaAtlas.Proofs.FinalizedNodes
import SchemaAtlas.Proofs.ChainConstruction
import SchemaAtlas.Proofs.LoweringLevels
import SchemaAtlas.Proofs.AlikeFindings
import SchemaAtlas.Proofs.LikeScripts
import SchemaAtlas.Proofs.CommentedScripts
