import ZeeboLle.Paging.PageTable
import ZeeboLle.Unicorn.Memory
import ZeeboLle.L4.MapItem
import ZeeboLle.L4.MapControl
import ZeeboLle.L4.MapControlInvariant
import ZeeboLle.L4.SpaceManager
import ZeeboLle.L4.Lookup
import ZeeboLle.L4.Activation
import ZeeboLle.L4.Shadow
import ZeeboLle.L4.Revocation
import ZeeboLle.L4.ThreadTable
import ZeeboLle.System.Trap
import ZeeboLle.System.Handoff
import ZeeboLle.Device.Vic
import ZeeboLle.System.Scheduler
import ZeeboLle.System.SliceBoundary
import ZeeboLle.System.OwnSpace
import ZeeboLle.L4.MapControlFrame
import ZeeboLle.System.MapControlScope
import ZeeboLle.L4.Schedule
import ZeeboLle.L4.ExchangeRegisters
import ZeeboLle.System.Starvation
import ZeeboLle.Device.InService
import ZeeboLle.Paging.Bytes
import ZeeboLle.Unicorn.Cells
import ZeeboLle.Device.Models
import ZeeboLle.L4.Vtlb
import ZeeboLle.System.Fabric
import ZeeboLle.System.BackendReads
import ZeeboLle.System.LostStore
import ZeeboLle.System.Mailbox
import ZeeboLle.System.InterruptSources
import ZeeboLle.System.SplitView
import ZeeboLle.Device.Delivery
import ZeeboLle.Device.TimerExactness
import ZeeboLle.Device.Handshake
import ZeeboLle.Paging.Segments
import ZeeboLle.Unicorn.View
import ZeeboLle.Device.SmdBridge
import ZeeboLle.Device.SmdQueue
import ZeeboLle.Device.SmdInjection
import ZeeboLle.Device.SmdDecode
import ZeeboLle.Device.Nand
import ZeeboLle.Device.NandRead
import ZeeboLle.SaveState.Format
import ZeeboLle.SaveState.Manager
import ZeeboLle.SaveState.RoundTrip
import ZeeboLle.SaveState.Rejection
import ZeeboLle.Unicorn.RegionPages
import ZeeboLle.Brew.Timer
import ZeeboLle.Brew.ModuleEntry
import ZeeboLle.Efs2.Dirents
import ZeeboLle.Gpu.MatrixStack
import ZeeboLle.Gpu.Draw
import ZeeboLle.Gpu.Atitc
import ZeeboLle.Gpu.AtitcImage
import ZeeboLle.System.JitSync
import ZeeboLle.System.HostReturn
import ZeeboLle.Jit.Fallback
import ZeeboLle.Jit.Banks
import ZeeboLle.Streams.Frames
import ZeeboLle.Control.Channel
import ZeeboLle.Control.Replies
import ZeeboLle.Relations.Acyclic
import ZeeboLle.Gpu.Pm4
import ZeeboLle.Plane.Triangle
import ZeeboLle.Gpu.Coverage
import ZeeboLle.Scheduling.Strides
import ZeeboLle.Linux.Vic
import ZeeboLle.Device.RegisterBlocks
import ZeeboLle.Unicorn.Blocks
import ZeeboLle.Device.DmovReference
import ZeeboLle.Device.DmovSimulation
import ZeeboLle.Scheduling.Transducers
import ZeeboLle.Gpu.Selectors
import ZeeboLle.Jit.ArmReference
import ZeeboLle.Jit.ArmFallback
import ZeeboLle.Jit.ArmExactness
import ZeeboLle.Paging.Flat
import ZeeboLle.Linux.Ehci
import ZeeboLle.Linux.EhciReports
import ZeeboLle.Linux.EhciBuffers
import ZeeboLle.Linux.EhciStages
import ZeeboLle.Linux.EhciSchedule
import ZeeboLle.Linux.EhciTransfers
import ZeeboLle.Linux.EhciRounds
import ZeeboLle.Gpu.Pm4Calls
import ZeeboLle.Efs2.Index
import ZeeboLle.Brew.Mif
import ZeeboLle.Boot.BootInfo
import ZeeboLle.Boot.PoolPages
import ZeeboLle.L4.AliasedBytes
import ZeeboLle.Device.TimerClearing
import ZeeboLle.L4.ServiceRegistry
import ZeeboLle.Boot.ImageLoad
import ZeeboLle.Device.MddiScanout
import ZeeboLle.Device.Adreno
import ZeeboLle.Audio.Sink
import ZeeboLle.Audio.Voices
import ZeeboLle.Audio.Audpp
import ZeeboLle.Zeetris.Runner
import ZeeboLle.Zeetris.Objects
import ZeeboLle.Streams.Cursor
import ZeeboLle.Zeetris.Files
import ZeeboLle.Zeetris.Wav
import ZeeboLle.Control.Framing
import ZeeboLle.Paging.Views
import ZeeboLle.Brew.Injection
import ZeeboLle.Plane.Fan
import ZeeboLle.Plane.Clip
import ZeeboLle.Plane.ClipFan
import ZeeboLle.Gpu.NearClip
import ZeeboLle.Streams.Search
import ZeeboLle.Json.Flat
import ZeeboLle.Control.ParseLine
import ZeeboLle.Control.JsonRequests
import ZeeboLle.L4.RegionLists
import ZeeboLle.Streams.RingBuffer
import ZeeboLle.Control.UnmappedAccess
import ZeeboLle.Control.TraceDedup
import ZeeboLle.Linux.UsbStatus
import ZeeboLle.Linux.SerialInput
import ZeeboLle.Json.Reader
import ZeeboLle.Json.Texts
import ZeeboLle.Control.ProbeRegistry
import ZeeboLle.Linux.GuestWalk
import ZeeboLle.Linux.DataAborts
import ZeeboLle.Streams.BackReference
import ZeeboLle.Boot.RleBlob
import ZeeboLle.Device.PartitionRead
import ZeeboLle.Streams.Champion
import ZeeboLle.Gpu.Textures
import ZeeboLle.Gpu.Fragments
import ZeeboLle.Control.Session
import ZeeboLle.Control.Breakpoints
import ZeeboLle.Control.SessionReplies
import ZeeboLle.Control.SessionMemory
import ZeeboLle.Linux.ScreenText
import ZeeboLle.Linux.HidTyping
import ZeeboLle.Linux.Clockevent
import ZeeboLle.System.SharedRegion
import ZeeboLle.System.GuestBridge
