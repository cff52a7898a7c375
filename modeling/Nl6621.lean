import Nl6621.Edp.WriteRuns
import Nl6621.Edp.RoundTrip
import Nl6621.Cloud.Asserts
import Nl6621.Cloud.Pointers
import Nl6621.Cloud.Segmentation
import Nl6621.Cloud.Login
import Nl6621.Cloud.Chunks
import Nl6621.Cloud.RecvBuffer
import Nl6621.Dhcp.Leases
import Nl6621.Dhcp.Pool
import Nl6621.Dhcp.Confirm
import Nl6621.Dhcp.Timers
import Nl6621.Dhcp.Cursor
import Nl6621.Dhcp.Parsed
import Nl6621.Dhcp.Foreign
import Nl6621.Dmem.Invariant
import Nl6621.Dhcp.History
import Nl6621.Dhcp.Independence
import Nl6621.Dmem.Coalesce
import Nl6621.Dmem.Search
import Nl6621.Dmem.Malloc
import Nl6621.Lib.Circular
import Nl6621.Lib.Fifo
import Nl6621.Lib.While
import Nl6621.Lib.Words
import Nl6621.NuAgent.Base64
import Nl6621.NuAgent.RingBuffer
import Nl6621.NuAgent.RingRuns
import Nl6621.Util.CellEdits
import Nl6621.Util.CellRuns
import Nl6621.Flash.QSpi
import Nl6621.Flash.WriteFlash
import Nl6621.Flash.OneSector
import Nl6621.Wifi.Credentials
import Nl6621.Edp.Bounds
import Nl6621.Lan.Clients
import Nl6621.Lan.Dispatch
import Nl6621.Net.HostByName
import Nl6621.NuAgent.UartRecv
import Nl6621.Port.SysArch
import Nl6621.Port.Millis
import Nl6621.NuAgent.NtpClient
import Nl6621.Wifi.Connect
import Nl6621.Dns.Server
import Nl6621.Dns.Names
import Nl6621.Dns.Answers
import Nl6621.Lib.LastWriter
import Nl6621.Sys.Param
import Nl6621.Edp.CJson
import Nl6621.Edp.Savedata
import Nl6621.Edp.RemainLen
import Nl6621.Edp.Capacity
import Nl6621.Edp.SavedataBin
import Nl6621.Net.LifeCycle
import Nl6621.Net.Stream
import Nl6621.Net.SendData
import Nl6621.Util.Crc32
import Nl6621.Util.Crc8
import Nl6621.NuAgent.SearchStr
import Nl6621.NuAgent.RestFul
import Nl6621.NuAgent.SimuUart
import Nl6621.NuAgent.StrNumbers
import Nl6621.NuAgent.StrTrim
import Nl6621.Json.Clients
import Nl6621.Ucos.Correct
import Nl6621.Lib.BinaryField
import Nl6621.Aes.Code
import Nl6621.Aes.Chain
import Nl6621.Lwip.Checksum
import Nl6621.Lwip.Timeouts
