import XfsVolume.BlockSize
import XfsVolume.Bytes
import XfsVolume.Command.Host
import XfsVolume.Command.ImageTool
import XfsVolume.Command.Inspector
import XfsVolume.Command.Outcome
import XfsVolume.Command.Request
import XfsVolume.Decimal.Shortest
import XfsVolume.Device.Basic
import XfsVolume.Device.Fault
import XfsVolume.Directory.BlockCache
import XfsVolume.Directory.DataBlock
import XfsVolume.Directory.Flaw
import XfsVolume.Directory.IndexBlock
import XfsVolume.Directory.Inline
import XfsVolume.Directory.Listing
import XfsVolume.Directory.Lookup
import XfsVolume.Directory.NameHash
import XfsVolume.Directory.Reader
import XfsVolume.Error.Decode
import XfsVolume.Error.Os
import XfsVolume.Extent.Basic
import XfsVolume.Extent.Cursor
import XfsVolume.Extent.Flaw
import XfsVolume.Extent.Map
import XfsVolume.Extent.Tree
import XfsVolume.Fault
import XfsVolume.Fields
import XfsVolume.Fixture.Basic
import XfsVolume.Fixture.Hex
import XfsVolume.Geometry
import XfsVolume.Image.Builder
import XfsVolume.Image.Directory
import XfsVolume.Image.DirectoryBlock
import XfsVolume.Image.Fault
import XfsVolume.Image.Files
import XfsVolume.Image.Finish
import XfsVolume.Image.Options
import XfsVolume.Image.Sample
import XfsVolume.Image.Tree
import XfsVolume.Inode.Basic
import XfsVolume.Inode.FileKind
import XfsVolume.Inode.Flaw
import XfsVolume.Inode.Load
import XfsVolume.Json.Error
import XfsVolume.Json.Number
import XfsVolume.Json.Reader
import XfsVolume.Json.Value
import XfsVolume.Main
import XfsVolume.Medium
import XfsVolume.Partition
import XfsVolume.Proofs.Bytes
import XfsVolume.Proofs.Device
import XfsVolume.Proofs.Device.Patches
import XfsVolume.Proofs.Digits
import XfsVolume.Proofs.Directory.Agreement
import XfsVolume.Proofs.Directory.Cache
import XfsVolume.Proofs.Directory.CacheHistory
import XfsVolume.Proofs.Directory.Chain
import XfsVolume.Proofs.Directory.Cursors
import XfsVolume.Proofs.Directory.EntryAddresses
import XfsVolume.Proofs.Directory.HashIndex
import XfsVolume.Proofs.Directory.IndexReads
import XfsVolume.Proofs.Directory.IndexWalks
import XfsVolume.Proofs.Directory.Listing
import XfsVolume.Proofs.Directory.NameHash
import XfsVolume.Proofs.Directory.OnePass
import XfsVolume.Proofs.Directory.Presented
import XfsVolume.Proofs.Directory.Reading
import XfsVolume.Proofs.Directory.SlotWalks
import XfsVolume.Proofs.Extent.CursorRuns
import XfsVolume.Proofs.Extent.Linear
import XfsVolume.Proofs.Extent.MapFaults
import XfsVolume.Proofs.Extent.Mapping
import XfsVolume.Proofs.Extent.Order
import XfsVolume.Proofs.Extent.Packing
import XfsVolume.Proofs.Extent.StaleKeys
import XfsVolume.Proofs.Extent.StoredTree
import XfsVolume.Proofs.Extent.TreeReads
import XfsVolume.Proofs.Extent.Walks
import XfsVolume.Proofs.Failures
import XfsVolume.Proofs.Fields
import XfsVolume.Proofs.Geometry.Decoding
import XfsVolume.Proofs.Geometry.Validated
import XfsVolume.Proofs.Image.Callers
import XfsVolume.Proofs.Image.DataBlocks
import XfsVolume.Proofs.Image.DataRegions
import XfsVolume.Proofs.Image.DirectoryOnMedium
import XfsVolume.Proofs.Image.DirectoryPlaces
import XfsVolume.Proofs.Image.DirectoryShape
import XfsVolume.Proofs.Image.DirectorySteps
import XfsVolume.Proofs.Image.EntriesOnMedium
import XfsVolume.Proofs.Image.FileBlocks
import XfsVolume.Proofs.Image.FileRoundTrip
import XfsVolume.Proofs.Image.Finished
import XfsVolume.Proofs.Image.FinishedGeometry
import XfsVolume.Proofs.Image.Forks
import XfsVolume.Proofs.Image.Frames
import XfsVolume.Proofs.Image.Grants
import XfsVolume.Proofs.Image.HandedOut
import XfsVolume.Proofs.Image.IndexBlocks
import XfsVolume.Proofs.Image.IndexLevels
import XfsVolume.Proofs.Image.IndexTree
import XfsVolume.Proofs.Image.InlineCodec
import XfsVolume.Proofs.Image.InlineForm
import XfsVolume.Proofs.Image.Inode
import XfsVolume.Proofs.Image.InodeOnMedium
import XfsVolume.Proofs.Image.InodeSlots
import XfsVolume.Proofs.Image.LinkRoundTrip
import XfsVolume.Proofs.Image.MappedInodes
import XfsVolume.Proofs.Image.OnMedium
import XfsVolume.Proofs.Image.Options
import XfsVolume.Proofs.Image.Placement
import XfsVolume.Proofs.Image.Reaching
import XfsVolume.Proofs.Image.Room
import XfsVolume.Proofs.Image.RoundTrip
import XfsVolume.Proofs.Image.Superblock
import XfsVolume.Proofs.Image.Taking
import XfsVolume.Proofs.Image.TreeLevels
import XfsVolume.Proofs.Image.TreeNodes
import XfsVolume.Proofs.Image.TreeOnMedium
import XfsVolume.Proofs.Image.TreeParts
import XfsVolume.Proofs.Image.WrittenDirectory
import XfsVolume.Proofs.Image.WrittenIndex
import XfsVolume.Proofs.Image.WrittenTree
import XfsVolume.Proofs.Partition
import XfsVolume.Proofs.Steps
import XfsVolume.Proofs.Superblock
import XfsVolume.Proofs.Tables
import XfsVolume.Proofs.Volume.CheckedReads
import XfsVolume.Proofs.Volume.DeviceFaults
import XfsVolume.Proofs.Volume.DirectoryBlocks
import XfsVolume.Proofs.Volume.FileData
import XfsVolume.Proofs.Volume.History
import XfsVolume.Proofs.Volume.LoadedForks
import XfsVolume.Proofs.Volume.Mount
import XfsVolume.Proofs.Volume.MountRoutes
import XfsVolume.Proofs.Volume.Paths
import XfsVolume.Proofs.Volume.Pieces
import XfsVolume.Proofs.Volume.ReadFaults
import XfsVolume.Proofs.Volume.Runs
import XfsVolume.Report.Document
import XfsVolume.Report.Structures
import XfsVolume.Superblock
import XfsVolume.Text.Quoted
import XfsVolume.Text.Unprintable
import XfsVolume.Text.Utf8
import XfsVolume.Volume.Attributes
import XfsVolume.Volume.Basic
import XfsVolume.Volume.Data
import XfsVolume.Volume.Description
import XfsVolume.Volume.Names
import XfsVolume.Volume.Path
import XfsVolume.Volume.Symlink
