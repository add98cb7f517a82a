import BdmAssault.Lib.Transition
import BdmAssault.Lib.Loop
import BdmAssault.Cache.Transparency
import BdmAssault.Cache.Weights
import BdmAssault.Manager.Nesting
import BdmAssault.Manager.Confinement
import BdmAssault.Manager.StaleMount
import BdmAssault.Manager.LostMount
import BdmAssault.Manager.AtaOnly
import BdmAssault.Manager.GptPartitions
import BdmAssault.Manager.Mailbox
import BdmAssault.FatFs.Select
import BdmAssault.FatFs.TimeStamp
import BdmAssault.FatFs.OriginalFragments
import BdmAssault.FatFs.OpenFiles
import BdmAssault.FatFs.LinkMap
import BdmAssault.FatFs.Requests
import BdmAssault.Smb.Segmentation
import BdmAssault.Smb.InStep
import BdmAssault.Smb.ShortReply
import BdmAssault.Smb.ReplyBounds
import BdmAssault.Smb.Classification
import BdmAssault.Smb.Encoding
import BdmAssault.Smb.FileTime
import BdmAssault.Smb.ShareList
import BdmAssault.Smb.Driver.Pairing
import BdmAssault.Smb.Driver.Acknowledged
import BdmAssault.Smb.Driver.Position
import BdmAssault.Smb.Driver.CachedReads
import BdmAssault.Smb.Driver.HandleNames
import BdmAssault.Smb.Driver.Directory
import BdmAssault.Smb.Driver.Sessions
import BdmAssault.Smb.Driver.Slots
import BdmAssault.Smb.Driver.Coherence
import BdmAssault.Smb.Driver.Threads
import BdmAssault.Usb.BulkOnly
import BdmAssault.Usb.Unplug
import BdmAssault.Usb.BlockIo
import BdmAssault.Usb.Chunks
import BdmAssault.Usbd.DefaultAddress
import BdmAssault.Usbd.Punctual
import BdmAssault.Usbd.StaticDescriptors
import BdmAssault.Hcd.Completion
import BdmAssault.Ata.DmaTransfer
import BdmAssault.Ata.Connecting
import BdmAssault.Mx4sio.BlockDevice
import BdmAssault.Mx4sio.CardInfo
import BdmAssault.Mx4sio.Crc7
import BdmAssault.Mx4sio.BitOrder
import BdmAssault.FatFs.Defrag
import BdmAssault.FatFs.TableRuns
import BdmAssault.FatFs.ChainRuns
import BdmAssault.FatFs.WriteRuns
