import RamFs.Main
import RamFs.Outline
import RamFs.Proofs.Contents.Store
import RamFs.Proofs.Contents.Transfer
import RamFs.Proofs.Contents.Flat
import RamFs.Proofs.Contents.Guarded
import RamFs.Proofs.Contents.Sending
import RamFs.Proofs.Action
import RamFs.Proofs.Calls
import RamFs.Proofs.Namespace.Change
import RamFs.Proofs.Namespace.Closing
import RamFs.Proofs.Namespace.Reachable
import RamFs.Proofs.Namespace.Skeleton
import RamFs.Proofs.Namespace.Links
import RamFs.Proofs.Accounts.Handles
import RamFs.Proofs.Accounts.Links
import RamFs.Proofs.Namespace.Detours
import RamFs.Proofs.Namespace.Passes
import RamFs.Proofs.Sessions.Reading
import RamFs.Proofs.Sessions.Writing
import RamFs.Proofs.Sessions.Creating
import RamFs.Proofs.Sessions.Scripts
import RamFs.Proofs.Locks.Exclusion
import RamFs.Proofs.Locks.Neighbours
import RamFs.Proofs.Standards.Times
import RamFs.Proofs.Standards.Blocks
import RamFs.Proofs.Standards.Relocations
import RamFs.Proofs.Paths.Shadows
import RamFs.Proofs.Paths.Tidy
import RamFs.Proofs.Paths.Printing
import RamFs.Proofs.Paths.Joining
import RamFs.Proofs.Paths.Roots
import RamFs.Proofs.Sharing.Edits
import RamFs.Proofs.Sharing.Spared
import RamFs.Proofs.Namespace.Durable
import RamFs.Proofs.Sharing.Copies
import RamFs.Proofs.Namespace.Spellings
import RamFs.Proofs.Namespace.Canonical
import RamFs.Proofs.Relocations.Refusals
import RamFs.Proofs.Relocations.Effects
import RamFs.Proofs.Namespace.Legs
import RamFs.Proofs.Namespace.Listing
import RamFs.Proofs.Namespace.Outlines
import RamFs.Proofs.Relocations.Duplicates
import RamFs.Proofs.Sessions.Opened
import RamFs.Proofs.Sessions.Abandoned
import RamFs.Proofs.Sessions.Overwriting
import RamFs.Proofs.Sharing.Stamps
import RamFs.Proofs.Locks.Roll
import RamFs.Proofs.Locks.Tenure
import RamFs.Proofs.Cursors.Appends
import RamFs.Proofs.Cursors.Truncation
import RamFs.Proofs.Sessions.Access
import RamFs.Proofs.Commands.Transcripts
import RamFs.Proofs.Standards.Floors
import RamFs.Proofs.Paths.Folding
import RamFs.Proofs.Json.Configurations
