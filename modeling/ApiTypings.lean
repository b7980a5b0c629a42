import ApiTypings.Main
import ApiTypings.TypeText.Closure
import ApiTypings.Proofs.Namespace.Mention
import ApiTypings.Proofs.Namespace.Node
import ApiTypings.Proofs.Namespace.Refinement
import ApiTypings.Proofs.Exclusion.Inheritance
import ApiTypings.Proofs.Exclusion.Growth
import ApiTypings.Proofs.Exclusion.Settling
import ApiTypings.Proofs.Exclusion.Closure
import ApiTypings.Proofs.Exclusion.Request
import ApiTypings.Proofs.Exclusion.Recursion
import ApiTypings.Proofs.Namespace.Naming
import ApiTypings.Proofs.Exclusion.Failure
import ApiTypings.Proofs.Exclusion.Circle
import ApiTypings.Proofs.Exclusion.Effect
import ApiTypings.Proofs.Exclusion.Order
import ApiTypings.Proofs.Api.Named
import ApiTypings.Proofs.Declaration.Stages
import ApiTypings.Proofs.Declaration.Placeholder
import ApiTypings.Proofs.Document.Depth
import ApiTypings.Proofs.Document.Named
import ApiTypings.Proofs.Document.Skipped
import ApiTypings.Proofs.Declaration.Skipped
import ApiTypings.Proofs.Declaration.Completion
import ApiTypings.Proofs.Declaration.Outcome
import ApiTypings.Proofs.Document.Lookup
import ApiTypings.Proofs.Document.Sharing
import ApiTypings.Proofs.Exclusion.Alike
import ApiTypings.Proofs.Declaration.Alike
import ApiTypings.Proofs.Declaration.Sharing
import ApiTypings.Namespace.Slot
import ApiTypings.Proofs.Namespace.Slot
import ApiTypings.Proofs.Namespace.Created
import ApiTypings.Proofs.Exclusion.Operation
import ApiTypings.Proofs.Declaration.Idempotence
import ApiTypings.Proofs.Exclusion.Meaning
import ApiTypings.Proofs.Exclusion.Ascent
import ApiTypings.Proofs.Exclusion.Trail
import ApiTypings.Proofs.Exclusion.Descent
import ApiTypings.Proofs.Namespace.Without
import ApiTypings.Proofs.Exclusion.Without
import ApiTypings.Proofs.Declaration.Addition
import ApiTypings.Proofs.Exclusion.Synthetic
import ApiTypings.Proofs.Settings.Strictness
import ApiTypings.Proofs.Settings.Projection
import ApiTypings.Proofs.Storage.Location
import ApiTypings.Proofs.Storage.Artifact
import ApiTypings.Proofs.Run.Atomicity
import ApiTypings.Proofs.Text.Sorted
import ApiTypings.Proofs.Success
import ApiTypings.Proofs.Suffix
import ApiTypings.Proofs.Text.Replacement
import ApiTypings.Proofs.Externs.Order
import ApiTypings.Proofs.Externs.Dictionary
import ApiTypings.Proofs.Logging.Wiring
import ApiTypings.Proofs.Logging.Lifecycle
import ApiTypings.Proofs.Storage.Failure
import ApiTypings.Proofs.Logging.Opening
import ApiTypings.Proofs.Storage.Following
import ApiTypings.Proofs.Run.Input
import ApiTypings.Proofs.CommandLine.Input
import ApiTypings.Proofs.Declaration.Parameter
import ApiTypings.Proofs.Externs.Acceptance
import ApiTypings.Proofs.Text.Trimming
import ApiTypings.Proofs.TypeText.Depth
import ApiTypings.Proofs.TypeText.Name
import ApiTypings.Proofs.TypeText.Renaming
import ApiTypings.Proofs.TypeText.Term
import ApiTypings.Proofs.TypeText.Spelling
import ApiTypings.Proofs.TypeText.Translation
import ApiTypings.Proofs.TypeText.Expression
import ApiTypings.Proofs.TypeText.Qualification
import ApiTypings.Proofs.TypeText.Alternatives
import ApiTypings.Proofs.TypeText.Union
import ApiTypings.Proofs.TypeText.Argument
import ApiTypings.Proofs.TypeText.Slice
import ApiTypings.Proofs.TypeText.Fallback
import ApiTypings.Proofs.Document.Idempotence
import ApiTypings.Proofs.Document.Gathering
import ApiTypings.Proofs.Document.Complement
import ApiTypings.Proofs.Declaration.Comment
import ApiTypings.Proofs.Declaration.Key
import ApiTypings.Proofs.Declaration.Event
import ApiTypings.Proofs.Declaration.Body
import ApiTypings.Proofs.Declaration.Exclusion
import ApiTypings.Proofs.Declaration.Identifier
import ApiTypings.Proofs.Declaration.Legality
import ApiTypings.Proofs.Declaration.Line
import ApiTypings.Proofs.Declaration.Whole
import ApiTypings.Proofs.Declaration.Cleared
import ApiTypings.Proofs.Declaration.Deprecation
import ApiTypings.Proofs.Declaration.Marker
import ApiTypings.Proofs.Declaration.Clause
import ApiTypings.Proofs.Externs.Reading
import ApiTypings.Proofs.Externs.Binding
import ApiTypings.Proofs.Externs.Statement
import ApiTypings.Proofs.Externs.Quiet
