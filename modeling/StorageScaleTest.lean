import StorageScaleTest.Interruptible.Program
import StorageScaleTest.Proof.Coordinator.Immutable
import StorageScaleTest.Proof.Coordinator.Consistent
import StorageScaleTest.Proof.Coordinator.Progress
import StorageScaleTest.Proof.Coordinator.Restart
import StorageScaleTest.Collection.Validation
import StorageScaleTest.Proof.Collection.Acceptance
import StorageScaleTest.Proof.Collection.Terminal
import StorageScaleTest.Proof.Collection.Import
import StorageScaleTest.Proof.Collection.Agreement
import StorageScaleTest.Proof.Sweep.Artifacts
import StorageScaleTest.Proof.Sweep.Rotation
import StorageScaleTest.Proof.Sweep.Metadata
import StorageScaleTest.Proof.Sweep.DeleteOnly
import StorageScaleTest.Proof.Dispatch.Exclusion
import StorageScaleTest.Proof.Batch.History
import StorageScaleTest.Proof.Batch.Sealing
import StorageScaleTest.Proof.Ownership.Tracking
import StorageScaleTest.Proof.Bins.Grouping
import StorageScaleTest.Proof.Live.Median
import StorageScaleTest.Proof.Live.Ring
import StorageScaleTest.Proof.Live.Intervals
import StorageScaleTest.Proof.Live.Rates
import StorageScaleTest.Proof.Live.SteadyBytes
import StorageScaleTest.Proof.Live.WindowedDetail
import StorageScaleTest.Proof.Live.Restoring
import StorageScaleTest.Proof.Results.Assembly
import StorageScaleTest.Proof.Sizing.Decimal
import StorageScaleTest.Proof.Sizing.Completion
import StorageScaleTest.Proof.Sizing.FileSize
import StorageScaleTest.Proof.Sizing.Rounding
import StorageScaleTest.Proof.Sizing.FileCount
import StorageScaleTest.Proof.Ranges.Specification
import StorageScaleTest.Proof.Workload.Metadata
import StorageScaleTest.Proof.Targets.Names
import StorageScaleTest.Proof.Report.Decimation
import StorageScaleTest.Proof.Report.Comparison
import StorageScaleTest.Proof.Overrides.Provenance
import StorageScaleTest.Proof.Templates.Rendering
import StorageScaleTest.Proof.Attempts.Identity
import StorageScaleTest.Proof.Sweep.Coordinates
