import Squallz.Destination.Available
import Squallz.Inputs.Merge
import Squallz.Inputs.Walk
import Squallz.OutputSet.CrashSafety
import Squallz.Queue.Counters
import Squallz.Queue.JobStates
import Squallz.Queue.Status
import Squallz.Recovery.CrashSafety
import Squallz.Sqz.FooterRebuild
import Squallz.Sqz.HeaderDamage
import Squallz.Sqz.IndexPanics
import Squallz.Sqz.RoundTrip
import Squallz.Sqz.SectionDamage
import Squallz.Update.MoveTargets
import Squallz.Zip.Update
import Squallz.SourceCleanup.Journal
import Squallz.SourceCleanup.Steps
import Squallz.SourceCleanup.Cleanup
import Squallz.SourceCleanup.CrashSafety
import Squallz.Staging.Names
import Squallz.Staging.Registry
import Squallz.Api.Safety
import Squallz.Bytes.Stream
import Squallz.Sqz.Budget
import Squallz.Sqz.FooterScan
import Squallz.Sqz.Repaired
import Squallz.Staging.Charge
import Squallz.Staging.Cleanup
import Squallz.System.Interleaving
import Squallz.Volumes.Budget
import Squallz.Volumes.Concatenation
import Squallz.Volumes.ListingOrder
import Squallz.Volumes.Opening
import Squallz.Core.Filter
import Squallz.Extract.Accounting
import Squallz.Extract.Limits
import Squallz.Extract.LinkWalk
import Squallz.Registry.DisplayStem
import Squallz.Text.Glob
import Squallz.Text.Patterns
import Squallz.Volumes.Headers
import Squallz.Volumes.Remaining
import Squallz.Volumes.WorkingNames
import Squallz.Volumes.ZeroFill
import Squallz.Zip.NameTable
import Squallz.Zip.PatternDeletion
import Squallz.Zip.SelectionExact
import Squallz.Zip.TimestampRoundTrip
import Squallz.Extract.Atomicity
import Squallz.Checksum.Manifest
import Squallz.Sfx.Detection
import Squallz.Zip.LocalRecovery
import Squallz.Zip.UnsignedDescriptors
import Squallz.Zip.RecoveredReads
import Squallz.Rar.Inspection
import Squallz.SevenZ.Totals
import Squallz.SevenZ.Delivery
import Squallz.Core.RestartableSource
import Squallz.Sfx.MarkerSearch
import Squallz.SevenZ.InferredDirectories
import Squallz.Sqz.SectionReads
import Squallz.Api.Times
import Squallz.Core.ExtractGuard
import Squallz.Destination.StateDigest
import Squallz.Destination.StateIdentity
import Squallz.Zip.SplitEndExact
import Squallz.SevenZ.SelectiveStreaming
import Squallz.Rar.Agreement
import Squallz.Staging.Safety
import Squallz.System.Tally
import Squallz.Previews.Resources
import Squallz.Previews.Accounts
import Squallz.Previews.Handoffs
import Squallz.Previews.Sessions
import Squallz.Previews.Windows
import Squallz.Previews.Eviction
import Squallz.Passwords.SessionPasswords
import Squallz.Passwords.Verified
import Squallz.Erasure.Parity
import Squallz.Volumes.Parity
import Squallz.Volumes.Solving
import Squallz.Volumes.Reconstruction
import Squallz.Volumes.RoundTrip
import Squallz.Publication.Family
