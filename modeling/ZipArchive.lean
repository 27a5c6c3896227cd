import ZipArchive.Command.FileTree
import ZipArchive.Main
import ZipArchive.Proofs.Serving
import ZipArchive.Proofs.TrailerRecords
import ZipArchive.Session
import ZipArchive.Views
import ZipArchive.Proofs.Outcome
import ZipArchive.Proofs.TrailerValues
import ZipArchive.Proofs.TrailerScan
import ZipArchive.Proofs.TrailerGuarantee
import ZipArchive.Proofs.Members
import ZipArchive.Proofs.Headers
import ZipArchive.Proofs.Digesting
import ZipArchive.Proofs.Draining
import ZipArchive.Proofs.Faults
import ZipArchive.Proofs.FaultRuns
import ZipArchive.Proofs.StreamServing
import ZipArchive.Proofs.FaultsKept
import ZipArchive.Proofs.Drafts
import ZipArchive.Proofs.RoundTrip
import ZipArchive.Proofs.DecoderRuns
import ZipArchive.Proofs.DecodingContents
import ZipArchive.Proofs.StreamContents
import ZipArchive.Proofs.Extracting
import ZipArchive.Proofs.Schedules
import ZipArchive.Proofs.Footprint
import ZipArchive.Proofs.Retrying
import ZipArchive.Proofs.Interleaving
import ZipArchive.Proofs.ConfinedReads
import ZipArchive.Proofs.CheckedSlices
import ZipArchive.Proofs.OffsetRanges
import ZipArchive.Proofs.DirectoryGrammar
import ZipArchive.Proofs.LocalRanges
import ZipArchive.Proofs.ViewRuns
import ZipArchive.Proofs.Entries
import ZipArchive.Proofs.Places
import ZipArchive.Proofs.Containment
import ZipArchive.Proofs.TailWindows
import ZipArchive.Proofs.Limits
import ZipArchive.Proofs.Delivery
import ZipArchive.Proofs.CentralHeaders
import ZipArchive.Proofs.ExtraWalk
import ZipArchive.Proofs.LocalHeaders
import ZipArchive.Proofs.Trees
import ZipArchive.Proofs.Attempts
import ZipArchive.Proofs.LaidOut
import ZipArchive.Proofs.ContainedRuns
import ZipArchive.Proofs.Overwriting
import ZipArchive.Proofs.FailedMembers
import ZipArchive.Proofs.Patterns
import ZipArchive.Proofs.SanitizedPaths
import ZipArchive.Proofs.LossyText
import ZipArchive.Proofs.SanitizedNames
import ZipArchive.Proofs.Piping
import ZipArchive.Proofs.PositionalReads
import ZipArchive.Proofs.TrailerCodecs
import ZipArchive.Proofs.ExactReads
import ZipArchive.Proofs.LoggedCalls
