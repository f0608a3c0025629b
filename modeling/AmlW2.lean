import AmlW2.Lib.Run
import AmlW2.Reorder.Delivery
import AmlW2.Reorder.Conservation
import AmlW2.Reorder.Replay
import AmlW2.Rx.Amsdu
import AmlW2.Rx.Defrag
import AmlW2.Ring.Switch
import AmlW2.Ring.Handshake
import AmlW2.Ring.InOrder
import AmlW2.Cmd.Handover
import AmlW2.Monitor.Radiotap
import AmlW2.Monitor.Agreement
import AmlW2.Scan.Results
import AmlW2.Scan.Flush
import AmlW2.Lib.Presence
import AmlW2.Tdls.Builders
import AmlW2.Tdls.Frames
import AmlW2.Rx.Buffers
import AmlW2.Tx.Pages
import AmlW2.Tx.HostId
import AmlW2.Tx.HostIdTurns
import AmlW2.Tx.Schedule
import AmlW2.Tx.RetryRuns
import AmlW2.Tx.Credits
import AmlW2.Radar.Short
import AmlW2.Radar.Long
import AmlW2.Radar.Burst
import AmlW2.Radar.Dfs
import AmlW2.Tx.Amsdu
import AmlW2.Tx.Dismantle
import AmlW2.Tx.Staging
import AmlW2.Tx.Mgmt
import AmlW2.Tx.PsReady
import AmlW2.Tx.PsService
import AmlW2.Tx.PsRequest
import AmlW2.TcpAck.Cover
import AmlW2.TcpAck.Table
import AmlW2.TcpAck.Options
import AmlW2.TcpAck.Checksum
import AmlW2.Bus.Suspend
import AmlW2.Reorder.Creation
import AmlW2.Reorder.BarFrame
import AmlW2.Reorder.Aging
import AmlW2.Reorder.Bitmap
import AmlW2.Recovery.Assoc
import AmlW2.Trace.LocalBuf
import AmlW2.Trace.TraceInd
import AmlW2.Recovery.Rearm
import AmlW2.Lib.Refcount
import AmlW2.Chan.Count
import AmlW2.Chan.Switch
import AmlW2.Tx.Shedding
import AmlW2.Lib.Elements
import AmlW2.Lib.Bubble
import AmlW2.Mu.Info
import AmlW2.Mu.Select
import AmlW2.Mu.Membership
import AmlW2.Scc.Retune
import AmlW2.Scc.Refresh
import AmlW2.Special.DataFrame
import AmlW2.Assoc.Rsne
import AmlW2.Beacon.Template
import AmlW2.P2p.ChanList
import AmlW2.Trace.Text
import AmlW2.Cfg.RoundTrip
import AmlW2.Rate.Trials
import AmlW2.Rx.Stack
import AmlW2.P2p.RemainOn
import AmlW2.P2p.RocTx
import AmlW2.Bus.UsbConfirm
import AmlW2.Cmd.WorkQueue
import AmlW2.Scan.Requests
import AmlW2.Tx.Scatter
import AmlW2.Rate.Index
