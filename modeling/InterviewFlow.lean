import InterviewFlow.Json.Decoding
import InterviewFlow.Rewriting.Access
import InterviewFlow.Rewriting.Catalogue
import InterviewFlow.Session
import InterviewFlow.Proofs.Collections
import InterviewFlow.Proofs.Matching
import InterviewFlow.Proofs.Precedence
import InterviewFlow.Proofs.Evaluation
import InterviewFlow.Proofs.Templates
import InterviewFlow.Proofs.Productions
import InterviewFlow.Proofs.Grammar
import InterviewFlow.Proofs.Acceptance
import InterviewFlow.Proofs.Conservation
import InterviewFlow.Proofs.Image
import InterviewFlow.Proofs.DepthLimit
import InterviewFlow.Proofs.Extension
import InterviewFlow.Proofs.Framing
import InterviewFlow.Proofs.ArtifactRoundTrip
import InterviewFlow.Proofs.JsonText
import InterviewFlow.Proofs.JsonRoundTrip
import InterviewFlow.Proofs.NodeText
import InterviewFlow.Proofs.DocumentText
import InterviewFlow.Proofs.NestingBound
import InterviewFlow.Proofs.ReadBack
import InterviewFlow.Proofs.EntryOrder
import InterviewFlow.Proofs.KeyOrder
import InterviewFlow.Proofs.Normalization
import InterviewFlow.Proofs.Loading
import InterviewFlow.Proofs.Renaming
import InterviewFlow.Proofs.Lexemes
import InterviewFlow.Proofs.JsonGrammar
import InterviewFlow.Proofs.DocumentReading
import InterviewFlow.Proofs.RecursionLimits
import InterviewFlow.Proofs.RoutingQueries
import InterviewFlow.Proofs.TextNormalization
import InterviewFlow.Proofs.Overlap
import InterviewFlow.Proofs.Validation
import InterviewFlow.Proofs.Bindings
import InterviewFlow.Proofs.UnresolvedNames
import InterviewFlow.Proofs.Builders
import InterviewFlow.Proofs.NormalForm
import InterviewFlow.Proofs.Faults
import InterviewFlow.Proofs.Unseen
import InterviewFlow.Proofs.LoneItems
import InterviewFlow.Proofs.Compositionality
import InterviewFlow.Proofs.Places
import InterviewFlow.Proofs.Sequences
import InterviewFlow.Proofs.Traversals
import InterviewFlow.Proofs.Repeats
import InterviewFlow.Proofs.Consumption
import InterviewFlow.Proofs.NumberText
import InterviewFlow.Proofs.NumberLeaves
import InterviewFlow.Proofs.Sessions
