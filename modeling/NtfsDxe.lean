import NtfsDxe.Runlist.Extents
import NtfsDxe.Compress.Containment
import NtfsDxe.Cluster.FullMarks
import NtfsDxe.Index.LookupSound
import NtfsDxe.Runlist.ExtentOrder
import NtfsDxe.Runlist.Transfer
import NtfsDxe.Driver.OpenFileList
import NtfsDxe.Record.LayoutKept
import NtfsDxe.Path.FixName
import NtfsDxe.Path.SymlinkRoute
import NtfsDxe.Index.AddSound
import NtfsDxe.Mft.AllocOutcome
import NtfsDxe.File.Position
import NtfsDxe.Path.Join
import NtfsDxe.Directory.Rewind
import NtfsDxe.Driver.Lock
import NtfsDxe.Directory.Resume
import NtfsDxe.Directory.DeleteTwins
import NtfsDxe.Boot.Sector
import NtfsDxe.Mft.MirrorSound
import NtfsDxe.Inode.ExtentTable
import NtfsDxe.Inode.StaleReferences
import NtfsDxe.Attr.Enumerate
import NtfsDxe.Attr.Streams
import NtfsDxe.Bitmap.FreeBits
