import TableClient.AttributeValue.Float
import TableClient.AttributeValue.Wire
import TableClient.Client
import TableClient.Json.Printer
import TableClient.Json.Reader
import TableClient.Proofs.Allocation
import TableClient.Proofs.Assembly
import TableClient.Proofs.Attempts
import TableClient.Proofs.AttributeValue
import TableClient.Proofs.Backoff
import TableClient.Proofs.Batch
import TableClient.Proofs.Capture
import TableClient.Proofs.Composition
import TableClient.Proofs.ErrorReply
import TableClient.Proofs.FanOut
import TableClient.Proofs.Faults
import TableClient.Proofs.Limit
import TableClient.Proofs.Messages
import TableClient.Proofs.Normal
import TableClient.Proofs.Path.Acceptance
import TableClient.Proofs.Preset
import TableClient.Proofs.Pruning
import TableClient.Proofs.Rejection
import TableClient.Proofs.Renaming
import TableClient.Proofs.Resumption
import TableClient.Proofs.Sameness
import TableClient.Proofs.SegmentNumbers
import TableClient.Proofs.SegmentPlan
import TableClient.Proofs.Segments
import TableClient.Proofs.Standalone
import TableClient.Proofs.Substitution
import TableClient.Proofs.Tabulation
import TableClient.Proofs.Walk
import TableClient.Store.Http
import TableClient.Store.Script.Format
