import AssetUnpack.Main
import AssetUnpack.Source.Memory
import AssetUnpack.Source.Scripted
import AssetUnpack.Stream.Buffer
import AssetUnpack.Zip.Session
import AssetUnpack.Proofs.Disk.Paths
import AssetUnpack.Proofs.Disk.WellFormed
import AssetUnpack.Proofs.Disk.Lookup
import AssetUnpack.Proofs.Disk.Change
import AssetUnpack.Proofs.Disk.Truth
import AssetUnpack.Proofs.Disk.Growth
import AssetUnpack.Proofs.Disk.Stands
import AssetUnpack.Proofs.Stream.Delivery
import AssetUnpack.Proofs.Extraction.Calls
import AssetUnpack.Proofs.Extraction.Containment
import AssetUnpack.Proofs.Extraction.Counts
import AssetUnpack.Proofs.Extraction.Mirror
import AssetUnpack.Proofs.Extraction.Overlap
import AssetUnpack.Proofs.Extraction.Rerun
import AssetUnpack.Proofs.Extraction.Deeds
import AssetUnpack.Proofs.Extraction.Accounts
import AssetUnpack.Proofs.Extraction.Listing
import AssetUnpack.Proofs.Extraction.Preservation
import AssetUnpack.Proofs.Extraction.InStep
import AssetUnpack.Proofs.Extraction.Faulty
import AssetUnpack.Proofs.Extraction.Isolation
import AssetUnpack.Proofs.Extraction.Unclassified
import AssetUnpack.Proofs.Extraction.Clean
import AssetUnpack.Proofs.Source.Indexes
import AssetUnpack.Proofs.NodeTree.Part
import AssetUnpack.Proofs.Source.Scope
import AssetUnpack.Proofs.Disk.Descent
import AssetUnpack.Proofs.Bytes
import AssetUnpack.Proofs.Source.Answers
import AssetUnpack.Proofs.Extraction.Aside
import AssetUnpack.Proofs.Extraction.Replica
import AssetUnpack.Proofs.Extraction.Visited
import AssetUnpack.Proofs.Extraction.Chase
import AssetUnpack.Proofs.Stream.Transcript
import AssetUnpack.Proofs.Stream.Decoder
import AssetUnpack.Proofs.Zip.Reading
import AssetUnpack.Proofs.Zip.Whole
import AssetUnpack.Proofs.Zip.Session
import AssetUnpack.Proofs.Extraction.Refusal
import AssetUnpack.Proofs.Cli.Exits
import AssetUnpack.Proofs.NodeTree.Additions
import AssetUnpack.Proofs.NodeTree.AnyOrder
import AssetUnpack.Proofs.AssetPath.Segments
import AssetUnpack.Proofs.Source.Enumeration
import AssetUnpack.Proofs.Extraction.Told
import AssetUnpack.Proofs.AssetPath.Keeping
import AssetUnpack.Proofs.Source.Links
import AssetUnpack.Proofs.Tar.CurrentDirectory
import AssetUnpack.Proofs.Text.Controls
import AssetUnpack.Proofs.Extraction.InvalidNames
import AssetUnpack.Proofs.Json.Reader
import AssetUnpack.Proofs.Json.Rendered
import AssetUnpack.Proofs.Cli.Documents
import AssetUnpack.Proofs.Extraction.Unhindered
import AssetUnpack.Proofs.Cli.Statuses
import AssetUnpack.Proofs.AssetPath.Mirrored
import AssetUnpack.Proofs.Extraction.Addresses
import AssetUnpack.Proofs.Text.Grouped
