import NearLink.Bytes
import NearLink.Scanner
import NearLink.Frame
import NearLink.Sequence
import NearLink.CString
import NearLink.Fields
import NearLink.Ict.Client
import NearLink.Ict.EndToEnd
import NearLink.Ict.Ready
import NearLink.Ict.Sessions
import NearLink.Ict.Seek
import NearLink.Ict.Queue
import NearLink.Ict.Resync
import NearLink.Ict.Loss
import NearLink.Ict.Accept
import NearLink.Ict.Target
import NearLink.Ict.Rate
import NearLink.Ict.Bounds
import NearLink.Speed.Order
import NearLink.Speed.Senders
import NearLink.Speed.Session
import NearLink.Speed.Progress
import NearLink.Speed.Transparency
import NearLink.Speed.Loss
import NearLink.Speed.Grammar
import NearLink.Speed.Accounting
import NearLink.Speed.Advertise
import NearLink.Speed.Conservation
import NearLink.Speed.Forwarding
import NearLink.Speed.Network
import NearLink.Speed.Intake
import NearLink.Speed.Numbering
import NearLink.Speed.Lossless
import NearLink.Ict.Conservation
import NearLink.Link
import NearLink.Calls
import NearLink.Speed.Startup
import NearLink.Ict.Report
import NearLink.Speed.Discovery
import NearLink.Speed.Drain
import NearLink.Ict.Drain
import NearLink.Ict.Stream
