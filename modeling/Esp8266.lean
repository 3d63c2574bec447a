import Esp8266.Lib.Runs
import Esp8266.Guarantees.NetBiosNames
import Esp8266.Guarantees.SsdpSearches
import Esp8266.Guarantees.OneCrc
import Esp8266.Updater.Begin
import Esp8266.Updater.Writes
import Esp8266.Updater.StreamWrites
import Esp8266.Updater.End
import Esp8266.Guarantees.UartQueue
import Esp8266.Guarantees.SampleBuffers
import Esp8266.Guarantees.QueryArguments
import Esp8266.Guarantees.BridgeStreams
import Esp8266.Guarantees.ImageLayout
import Esp8266.Guarantees.OtaHandshake
import Esp8266.Guarantees.OtaUpload
import Esp8266.Guarantees.HttpUpdates
import Esp8266.Guarantees.BasicAuth
import Esp8266.Guarantees.MultipartForms
import Esp8266.Guarantees.RequestIsolation
import Esp8266.Guarantees.DnsNames
import Esp8266.Guarantees.MdnsTermination
import Esp8266.Guarantees.MicrosClock
import Esp8266.Guarantees.ReceivedStream
import Esp8266.Guarantees.TransmittedStream
import Esp8266.Guarantees.UdpQueue
import Esp8266.Guarantees.MdnsRenaming
import Esp8266.Guarantees.MdnsReplies
import Esp8266.Guarantees.MdnsTiebreak
import Esp8266.Guarantees.MdnsTxtItems
import Esp8266.Guarantees.MdnsProbing
import Esp8266.Guarantees.SecureStreams
import Esp8266.Guarantees.FlashAccess
import Esp8266.Guarantees.ScheduledRuns
import Esp8266.Guarantees.I2sReceive
import Esp8266.Guarantees.I2sTransmit
import Esp8266.Guarantees.UpdateChecksum
import Esp8266.Guarantees.UpdateSignature
import Esp8266.Guarantees.UpdateRegion
import Esp8266.Guarantees.OtaReports
import Esp8266.Guarantees.HttpOtaUpdates
import Esp8266.Guarantees.PuyaWrites
import Esp8266.Guarantees.UartResize
import Esp8266.Guarantees.MultipartBounds
import Esp8266.Guarantees.UrlDecoding
import Esp8266.Guarantees.Base64Strings
import Esp8266.Guarantees.PathTemplates
import Esp8266.Guarantees.ClientUrls
import Esp8266.Guarantees.ClientHeaders
import Esp8266.Guarantees.StreamUploads
import Esp8266.Guarantees.Redirects
import Esp8266.Guarantees.LlmnrAnswers
import Esp8266.Guarantees.MdnsDomains
import Esp8266.Guarantees.MdnsHeaders
import Esp8266.Guarantees.MdnsKnownAnswers
import Esp8266.Guarantees.MdnsLifetimes
import Esp8266.Guarantees.MdnsNames
import Esp8266.Guarantees.MillisClock
import Esp8266.Guarantees.PolledTimeouts
import Esp8266.Guarantees.DottedAddresses
import Esp8266.Guarantees.AddressTexts
import Esp8266.Guarantees.StreamSource
import Esp8266.Guarantees.UdpAssembly
import Esp8266.Guarantees.TlsPinning
import Esp8266.Guarantees.StringSearches
import Esp8266.Guarantees.StringReplacements
import Esp8266.Guarantees.BoundedFifo
import Esp8266.Guarantees.ErasedArea
import Esp8266.Guarantees.EepromCommits
import Esp8266.Guarantees.I2sFreeSpace
import Esp8266.Guarantees.TimedWaveforms
import Esp8266.Guarantees.GdbPackets
import Esp8266.Guarantees.I2cTransfers
import Esp8266.Guarantees.SpiPatterns
import Esp8266.Guarantees.RecurrentPasses
import Esp8266.Guarantees.StreamFinds
import Esp8266.Guarantees.StagedImages
import Esp8266.Guarantees.UpdateContainment
import Esp8266.Guarantees.MeshNumbers
import Esp8266.Guarantees.CertificateIndex
import Esp8266.Guarantees.SpiClock
import Esp8266.Guarantees.AvrispFraming
import Esp8266.Guarantees.SpiTransfers
import Esp8266.Guarantees.BootedUpdates
import Esp8266.Guarantees.HeapReports
import Esp8266.Guarantees.CircularQueues
import Esp8266.Guarantees.SerialLoopback
