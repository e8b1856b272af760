import GzipStage.Main
import GzipStage.Proofs.Arguments.Decode
import GzipStage.Proofs.Arguments.Listing
import GzipStage.Proofs.Arguments.Resolve
import GzipStage.Proofs.Arguments.Truncation
import GzipStage.Proofs.Stage.Determined
import GzipStage.Proofs.Stage.Plan
import GzipStage.Proofs.Stage.Run
import GzipStage.Proofs.Transfer.Failures
import GzipStage.Proofs.Arguments.Shape
import GzipStage.Proofs.Stage.Again
import GzipStage.Proofs.Stage.Blame
import GzipStage.Proofs.CommandLine.Invoke
import GzipStage.Proofs.Transfer.Interrupted
import GzipStage.Proofs.Stage.Progress
import GzipStage.Proofs.Arguments.Repeats
import GzipStage.Proofs.Arguments.Forms
import GzipStage.Proofs.Stage.Loaded
import GzipStage.Proofs.CommandLine.Apart
import GzipStage.Proofs.CommandLine.Filtered
import GzipStage.Proofs.Json.Nesting
import GzipStage.Proofs.Arguments.Nesting
