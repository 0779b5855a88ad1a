import ArchiveVfs.Archive.Basic
import ArchiveVfs.Archive.EntryPath
import ArchiveVfs.Archive.EntryReader
import ArchiveVfs.Archive.Index
import ArchiveVfs.Archive.Mounts
import ArchiveVfs.Assign
import ArchiveVfs.Bytes
import ArchiveVfs.Checksum
import ArchiveVfs.Codec.ByteOrder
import ArchiveVfs.Codec.PackedFloat
import ArchiveVfs.Codec.Reader
import ArchiveVfs.Codec.Value
import ArchiveVfs.Codec.Writer
import ArchiveVfs.CommandLine.Failure
import ArchiveVfs.CommandLine.Footprint
import ArchiveVfs.CommandLine.Parser
import ArchiveVfs.CommandLine.Request
import ArchiveVfs.CommandLine.Run
import ArchiveVfs.CommandLine.Usage
import ArchiveVfs.Decimal.Shortest
import ArchiveVfs.Deflate.Bits
import ArchiveVfs.Deflate.BlockCodes
import ArchiveVfs.Deflate.Huffman
import ArchiveVfs.Deflate.Inflate
import ArchiveVfs.Deflate.Item
import ArchiveVfs.Deflate.Output
import ArchiveVfs.Deflate.Reading
import ArchiveVfs.Deflate.Supply
import ArchiveVfs.Disk.Basic
import ArchiveVfs.Disk.Build
import ArchiveVfs.Disk.Contents
import ArchiveVfs.Disk.Fault
import ArchiveVfs.Disk.Tree
import ArchiveVfs.Disk.Walk
import ArchiveVfs.Environment
import ArchiveVfs.Error
import ArchiveVfs.Json.Basic
import ArchiveVfs.Json.Fault
import ArchiveVfs.Json.Number
import ArchiveVfs.Json.Printer
import ArchiveVfs.Json.Reader
import ArchiveVfs.Json.Text
import ArchiveVfs.Main
import ArchiveVfs.Scheme
import ArchiveVfs.Server.Archives
import ArchiveVfs.Server.Basic
import ArchiveVfs.Server.Change
import ArchiveVfs.Server.Query
import ArchiveVfs.Settings
import ArchiveVfs.SettingsFile
import ArchiveVfs.Stream.Access
import ArchiveVfs.Stream.Basic
import ArchiveVfs.Stream.Entry
import ArchiveVfs.Stream.File
import ArchiveVfs.Stream.Memory
import ArchiveVfs.Stream.Seek
import ArchiveVfs.Table
import ArchiveVfs.Text.CodePage437
import ArchiveVfs.Text.Cut
import ArchiveVfs.Text.Invisible
import ArchiveVfs.Text.Percent
import ArchiveVfs.Text.Quoted
import ArchiveVfs.Text.Utf8
import ArchiveVfs.Uri.Basic
import ArchiveVfs.Uri.Entry
import ArchiveVfs.Uri.NativePath
import ArchiveVfs.Uri.Parser
import ArchiveVfs.Uri.Printer
import ArchiveVfs.Wildcard
import ArchiveVfs.Zip.Cipher
import ArchiveVfs.Zip.Container
import ArchiveVfs.Zip.Directory
import ArchiveVfs.Zip.EndRecord
import ArchiveVfs.Zip.Extra
import ArchiveVfs.Zip.Fault
import ArchiveVfs.Zip.Record
import ArchiveVfs.Zip.Unpack
import ArchiveVfs.Proofs.Archive.Bounds
import ArchiveVfs.Proofs.Archive.Directories
import ArchiveVfs.Proofs.Archive.Draining
import ArchiveVfs.Proofs.Archive.Entry
import ArchiveVfs.Proofs.Archive.EntryCursor
import ArchiveVfs.Proofs.Archive.EntryPath
import ArchiveVfs.Proofs.Archive.EntryReading
import ArchiveVfs.Proofs.Archive.Indexing
import ArchiveVfs.Proofs.Archive.InnerPath
import ArchiveVfs.Proofs.Archive.Listed
import ArchiveVfs.Proofs.Archive.Load
import ArchiveVfs.Proofs.Archive.MountHistory
import ArchiveVfs.Proofs.Archive.NormalPath
import ArchiveVfs.Proofs.Archive.Passing
import ArchiveVfs.Proofs.Archive.Records
import ArchiveVfs.Proofs.Archive.Scenes
import ArchiveVfs.Proofs.Assign.Composition
import ArchiveVfs.Proofs.Assign.Steps
import ArchiveVfs.Proofs.Codec.Access
import ArchiveVfs.Proofs.Codec.Cursor
import ArchiveVfs.Proofs.Codec.Decoding
import ArchiveVfs.Proofs.Codec.Reading
import ArchiveVfs.Proofs.Codec.Records
import ArchiveVfs.Proofs.Codec.Shortage
import ArchiveVfs.Proofs.Codec.Value
import ArchiveVfs.Proofs.Codec.ViewCursor
import ArchiveVfs.Proofs.CommandLine.Requests
import ArchiveVfs.Proofs.CommandLine.Runs
import ArchiveVfs.Proofs.Decimal.Shortest
import ArchiveVfs.Proofs.Decimal.Span
import ArchiveVfs.Proofs.Deflate.Draining
import ArchiveVfs.Proofs.Deflate.Inflating
import ArchiveVfs.Proofs.Deflate.Reading
import ArchiveVfs.Proofs.Deflate.Supplying
import ArchiveVfs.Proofs.Disk.Contents
import ArchiveVfs.Proofs.Disk.Creating
import ArchiveVfs.Proofs.Disk.Growth
import ArchiveVfs.Proofs.Disk.Making
import ArchiveVfs.Proofs.Disk.Paths
import ArchiveVfs.Proofs.Disk.Routes
import ArchiveVfs.Proofs.Disk.Walking
import ArchiveVfs.Proofs.Json.Layout
import ArchiveVfs.Proofs.Json.Scalars
import ArchiveVfs.Proofs.Outcome
import ArchiveVfs.Proofs.Server.BufferSizes
import ArchiveVfs.Proofs.Server.ConfiguredAssigns
import ArchiveVfs.Proofs.Server.CopyWithoutSource
import ArchiveVfs.Proofs.Server.Copying
import ArchiveVfs.Proofs.Server.DirectoryMaking
import ArchiveVfs.Proofs.Server.DiskReading
import ArchiveVfs.Proofs.Server.EntryUris
import ArchiveVfs.Proofs.Server.Histories
import ArchiveVfs.Proofs.Server.Inertia
import ArchiveVfs.Proofs.Server.Listings
import ArchiveVfs.Proofs.Server.MountPoints
import ArchiveVfs.Proofs.Server.Moving
import ArchiveVfs.Proofs.Server.Precedence
import ArchiveVfs.Proofs.Server.Probing
import ArchiveVfs.Proofs.Server.RootDirectory
import ArchiveVfs.Proofs.Server.Runs
import ArchiveVfs.Proofs.Server.Sealed
import ArchiveVfs.Proofs.Server.Sources
import ArchiveVfs.Proofs.Server.Spelling
import ArchiveVfs.Proofs.Server.StandardArchives
import ArchiveVfs.Proofs.Server.SwitchedOff
import ArchiveVfs.Proofs.Server.WholeCopies
import ArchiveVfs.Proofs.Settings.RoundTrip
import ArchiveVfs.Proofs.Stream.Cursor
import ArchiveVfs.Proofs.Stream.Delivering
import ArchiveVfs.Proofs.Stream.EntryAsCursor
import ArchiveVfs.Proofs.Stream.EntryBounds
import ArchiveVfs.Proofs.Stream.EntryChecked
import ArchiveVfs.Proofs.Stream.FileAsMemory
import ArchiveVfs.Proofs.Stream.Orderly
import ArchiveVfs.Proofs.Stream.Reached
import ArchiveVfs.Proofs.Stream.Requests
import ArchiveVfs.Proofs.Stream.Serving
import ArchiveVfs.Proofs.Text.Cut
import ArchiveVfs.Proofs.Text.Percent
import ArchiveVfs.Proofs.Text.Utf8
import ArchiveVfs.Proofs.Uri.Appending
import ArchiveVfs.Proofs.Uri.Grammar
import ArchiveVfs.Proofs.Uri.Lineage
import ArchiveVfs.Proofs.Uri.NativePath
import ArchiveVfs.Proofs.Uri.Parents
import ArchiveVfs.Proofs.Uri.RoundTrip
import ArchiveVfs.Proofs.Wildcard
import ArchiveVfs.Proofs.Wildcard.LastStar
