import SdrProxy.Util
import SdrProxy.Time
import SdrProxy.Lib.Blocks
import SdrProxy.TimeOrder
import SdrProxy.Lib.Circular
import SdrProxy.Buffer
import SdrProxy.Lib.Fifo
import SdrProxy.Queue
import SdrProxy.Lib.CheckedInt
import SdrProxy.IntRing
import SdrProxy.RingSearch
import SdrProxy.Lib.BoundedMap
import SdrProxy.Cache
import SdrProxy.DataSearch
import SdrProxy.Arrival
import SdrProxy.SlotArray
import SdrProxy.Client
import SdrProxy.Fragmentation
import SdrProxy.Progress
import SdrProxy.Truncation
import SdrProxy.Lib.LinkedList
import SdrProxy.Lib.Machine
import SdrProxy.ClientThread
import SdrProxy.Connect
import SdrProxy.History
import SdrProxy.Records
import SdrProxy.Removal
import SdrProxy.HistoryMap
import SdrProxy.Server
import SdrProxy.Requests
import SdrProxy.ServerLoop
import SdrProxy.Service
import SdrProxy.System
import SdrProxy.Reception
import SdrProxy.Moves
import SdrProxy.Delivery
import SdrProxy.Containment
import SdrProxy.SendBuffer
import SdrProxy.Sessions
import SdrProxy.SetBack
import SdrProxy.Expiry
import SdrProxy.ReceiveRing
import SdrProxy.Interference
import SdrProxy.Items
import SdrProxy.Packets
import SdrProxy.Metadata
import SdrProxy.Framing
import SdrProxy.SlotSize
import SdrProxy.Publication
import SdrProxy.Announcement
import SdrProxy.Reallocation
import SdrProxy.Failure
import SdrProxy.Inhibition
import SdrProxy.Deallocation
import SdrProxy.Reconnection
import SdrProxy.Agreement
import SdrProxy.Exits
import SdrProxy.Provenance
import SdrProxy.Lib.Countdown
import SdrProxy.Response
import SdrProxy.Lib.Outlet
import SdrProxy.CatchUp
import SdrProxy.Window
import SdrProxy.Upstream
import SdrProxy.Relay
import SdrProxy.Resumption
import SdrProxy.RingSizes
import SdrProxy.Independence
