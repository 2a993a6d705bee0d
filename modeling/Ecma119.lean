import Ecma119.Bytes
import Ecma119.Error
import Ecma119.Decoder
import Ecma119.Numeric
import Ecma119.Text.Utf8
import Ecma119.Text.Charset
import Ecma119.Text.Ucs2
import Ecma119.Name
import Ecma119.Time.Calendar
import Ecma119.Time.Zoned
import Ecma119.Time.Long
import Ecma119.Time.Short
import Ecma119.Sector
import Ecma119.Device
import Ecma119.Source
import Ecma119.SystemUse
import Ecma119.Directory.Record
import Ecma119.Directory.Authoring
import Ecma119.Directory.Cursor
import Ecma119.Directory.Entry
import Ecma119.PathTable
import Ecma119.Volume.Header
import Ecma119.Volume.Options
import Ecma119.Volume.Descriptor
import Ecma119.Volume.Layout
import Ecma119.Volume.Mounted
import Ecma119.Volume.DescriptorSet
import Ecma119.Volume.Search
import Ecma119.File
import Ecma119.Tree.Lookup
import Ecma119.Tree.Owner
import Ecma119.Filesystem
import Ecma119.Proofs.Bytes
import Ecma119.Proofs.Decoder
import Ecma119.Proofs.Run
import Ecma119.Proofs.Halves
import Ecma119.Proofs.Rewriting
import Ecma119.Proofs.Follows
import Ecma119.Proofs.Text.Ending
import Ecma119.Proofs.Text.Utf8
import Ecma119.Proofs.Text.Charset
import Ecma119.Proofs.Text.Ucs2
import Ecma119.Proofs.Name.Version
import Ecma119.Proofs.Name.Level1
import Ecma119.Proofs.Name.Short
import Ecma119.Proofs.Time.Digits
import Ecma119.Proofs.Time.Recorded
import Ecma119.Proofs.Time.RoundTrip
import Ecma119.Proofs.Device.Image
import Ecma119.Proofs.Device.Steady
import Ecma119.Proofs.Device.BadBlocks
import Ecma119.Proofs.Device.Faulty
import Ecma119.Proofs.Source.Failing
import Ecma119.Proofs.Source.Framing
import Ecma119.Proofs.Source.Serving
import Ecma119.Proofs.Source.Faulty
import Ecma119.Proofs.Source.Following
import Ecma119.Proofs.Source.SectorRun
import Ecma119.Proofs.Source.Showing
import Ecma119.Proofs.Source.Tracing
import Ecma119.Proofs.Source.ByteReads
import Ecma119.Proofs.Source.Reframing
import Ecma119.Proofs.Source.Steady
import Ecma119.Proofs.SystemUse.Xa
import Ecma119.Proofs.SystemUse.Entries
import Ecma119.Proofs.SystemUse.NameEntry
import Ecma119.Proofs.Directory.Chains
import Ecma119.Proofs.Directory.Dots
import Ecma119.Proofs.Directory.Halves
import Ecma119.Proofs.Directory.RecordRoundTrip
import Ecma119.Proofs.Directory.Identifiers
import Ecma119.Proofs.Directory.NameCase
import Ecma119.Proofs.Directory.Packed
import Ecma119.Proofs.Directory.RecordRestored
import Ecma119.Proofs.Directory.AuthoredReadBack
import Ecma119.Proofs.Directory.Lenient
import Ecma119.Proofs.Directory.Places
import Ecma119.Proofs.Directory.AlternateName
import Ecma119.Proofs.Directory.Appending
import Ecma119.Proofs.Directory.FreeSpace
import Ecma119.Proofs.Directory.JolietNames
import Ecma119.Proofs.Directory.SafeWalk
import Ecma119.Proofs.PathTable
import Ecma119.Proofs.PathTable.Building
import Ecma119.Proofs.PathTable.Stored
import Ecma119.Proofs.Volume.Halves
import Ecma119.Proofs.Volume.Head
import Ecma119.Proofs.Volume.Sighting
import Ecma119.Proofs.Volume.DescriptorRoundTrip
import Ecma119.Proofs.Volume.DescriptorRestored
import Ecma119.Proofs.Volume.DescriptorSet
import Ecma119.Proofs.Volume.TextFields
import Ecma119.Proofs.Volume.BlankJoliet
import Ecma119.Proofs.Volume.SearchFirst
import Ecma119.Proofs.Volume.PlainSearch
import Ecma119.Proofs.Volume.Settling
import Ecma119.Proofs.File.Delivery
import Ecma119.Proofs.File.Steady
import Ecma119.Proofs.File.Stored
import Ecma119.Proofs.File.Cut
import Ecma119.Proofs.File.Following
import Ecma119.Proofs.File.AtOnce
import Ecma119.Proofs.File.Stream
import Ecma119.Proofs.File.AfterFailure
import Ecma119.Proofs.File.Whole
import Ecma119.Proofs.File.Stale
import Ecma119.Proofs.File.BrokenOff
import Ecma119.Proofs.File.Sectors
import Ecma119.Proofs.Tree.Listing
import Ecma119.Proofs.Tree.Trail
import Ecma119.Proofs.Tree.BreadthFirst
import Ecma119.Proofs.Tree.Coverage
import Ecma119.Proofs.Tree.Descent
import Ecma119.Proofs.Tree.AuthoredFiles
import Ecma119.Proofs.Tree.WayBack
import Ecma119.Proofs.Filesystem.Following
import Ecma119.Proofs.Filesystem.History
import Ecma119.Proofs.Filesystem.Reframing
import Ecma119.Proofs.Filesystem.Lenient
import Ecma119.Proofs.Filesystem.Lookup
import Ecma119.Proofs.Filesystem.PathTables
