import Mach.Client.AltSvcRuns
import Mach.Client.PoolRuns
import Mach.H1.Server.Pipeline
import Mach.H2.Client.Accounting
import Mach.H2.Client.FrameSize
import Mach.H2.Client.StreamTable
import Mach.H2.Server.Credit
import Mach.H2.Server.Dispatch
import Mach.H2.Server.ReadLoop
import Mach.H2.Server.TableSize
import Mach.H3.Exchange
import Mach.Hpack.TableSync
import Mach.Http.ParseUint
import Mach.Qpack.RequiredInsertCount
import Mach.Quic.Bridge.Coalesced
import Mach.Quic.Stream.Completion
import Mach.Quic.Stream.ConnIdentity
import Mach.Quic.Stream.Contiguous
import Mach.Quic.Stream.Delivery
import Mach.Quic.Stream.ReceiveCredit
import Mach.Quic.Stream.ReceiveStates
import Mach.Quic.Stream.ReceiveWindow
import Mach.Quic.Stream.SendCredit
import Mach.Quic.Stream.SendStates
import Mach.Quic.Wire.AckIntervals
import Mach.Uri.Normalize
import Mach.Uri.Target
import Mach.Ws.Closing
import Mach.Ws.Interleaving
import Mach.Ws.Parser
import Mach.Ws.ReadFrame
