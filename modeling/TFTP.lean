import TFTP.AckAddress
import TFTP.BinaryAddition
import TFTP.BitPacking
import TFTP.BlockCeiling
import TFTP.BusyDownload
import TFTP.BusyUpload
import TFTP.ClientFiles
import TFTP.ClientLoops
import TFTP.ClientPorts
import TFTP.CodeTable
import TFTP.CompressedSize
import TFTP.Confinement
import TFTP.CounterLimit
import TFTP.DamagedTable
import TFTP.DecodedSuffix
import TFTP.DeflateDamage
import TFTP.DeflateFiles
import TFTP.DeleteSessions
import TFTP.DepthsInPlace
import TFTP.DerivedNames
import TFTP.Download
import TFTP.DownloadLivelock
import TFTP.DownloadRecovery
import TFTP.DownloadVerdict
import TFTP.FirstDelimiter
import TFTP.FrontDoor
import TFTP.GoodNetwork
import TFTP.HonestPeers
import TFTP.Immutability
import TFTP.Leftovers
import TFTP.Library.Octets
import TFTP.Library.Runs
import TFTP.Library.Simulation
import TFTP.ListingDelivery
import TFTP.ListingEffects
import TFTP.ListingFormat
import TFTP.ListingSnapshot
import TFTP.Lossless
import TFTP.MalformedDatagrams
import TFTP.OversizedPackets
import TFTP.OwnClient
import TFTP.OwnServer
import TFTP.Packet
import TFTP.PacketAgreement
import TFTP.Patience
import TFTP.PromptDownload
import TFTP.PutThenGet
import TFTP.Quiescence
import TFTP.ReadIsolation
import TFTP.RequestGrammar
import TFTP.Restarts
import TFTP.ShortBlocks
import TFTP.Sockets
import TFTP.Store
import TFTP.StoreRefinement
import TFTP.ThreadAccounts
import TFTP.TwoQueues
import TFTP.Upload
import TFTP.UploadAgreement
import TFTP.UploadLosses
import TFTP.UploadRecovery
import TFTP.UploadVerdict
import TFTP.VectorBounds
import TFTP.WorkerThreads
import TFTP.WrittenThenRead
