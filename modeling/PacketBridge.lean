import PacketBridge.ReceiverRun
import PacketBridge.Resume
import PacketBridge.CheckpointCrash
import PacketBridge.CheckpointCut
import PacketBridge.TornRuns
import PacketBridge.Interference
import PacketBridge.TransferPlan
import PacketBridge.Listener
import PacketBridge.Framing
import PacketBridge.ReceiverSafety
import PacketBridge.ByteCount
import PacketBridge.ResumableTransfer
import PacketBridge.CheckpointOrder
import PacketBridge.FreshStop
import PacketBridge.FixedPackets
import PacketBridge.OutputPaths
import PacketBridge.Announcement
import PacketBridge.KilledRuns
import PacketBridge.Interleaving
import PacketBridge.FaultyRuns
import PacketBridge.ChangingFile
import PacketBridge.Deliveries
import PacketBridge.Attempts
import PacketBridge.SharedDirectory
import PacketBridge.ListenerOutput
import PacketBridge.Broadcaster
