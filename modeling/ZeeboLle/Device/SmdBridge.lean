import ZeeboLle.Unicorn.View

/-! Injection of ONCRPC packets into the modem's queue. Each packet has a slot of its own:
header, payload at a fixed offset and the queue node behind it; the queue head holds first
node, last node and count. The production injector and the stand-alone bridge share one body;
only the bridge bounds the payload. -/
namespace ZeeboLle.Device

open Paging Unicorn

def amssSmdChannelAddr : Nat := 0x1755d1dc
def amssRpcQueueHead : Nat := 0x17571748
def amssRpcPacketBuffer : Word := 0x177f2000

structure OncrpcPacketHeader where
  xid : Word
  msgType : Word
  rpcVersion : Word
  program : Word
  version : Word
  procedure : Word
  credFlavor : Word
  credLength : Word
  verfFlavor : Word
  verfLength : Word
deriving DecidableEq

namespace OncrpcPacketHeader

def words (hdr : OncrpcPacketHeader) : List Word :=
  [hdr.xid, hdr.msgType, hdr.rpcVersion, hdr.program, hdr.version, hdr.procedure, hdr.credFlavor,
    hdr.credLength, hdr.verfFlavor, hdr.verfLength]

def bytes (hdr : OncrpcPacketHeader) : List Byte := hdr.words.flatMap wordBytes

end OncrpcPacketHeader

structure OncrpcQueueNode where
  next : Word
  prev : Word
  packetAddr : Word
  packetLen : Word
  status : Word
deriving DecidableEq

namespace OncrpcQueueNode

def words (node : OncrpcQueueNode) : List Word :=
  [node.next, node.prev, node.packetAddr, node.packetLen, node.status]

def bytes (node : OncrpcQueueNode) : List Byte := node.words.flatMap wordBytes

end OncrpcQueueNode

/-- A CALL to one procedure. -/
structure Call where
  program : Word
  procedure : Word
  payload : List Byte
deriving DecidableEq

namespace Call

/-- The header of the call as the packet of a given number. -/
def header (call : Call) (number : Word) : OncrpcPacketHeader where
  xid := 0x12345678 + number
  msgType := 0
  rpcVersion := 2
  program := call.program
  version := 1
  procedure := call.procedure
  credFlavor := 0
  credLength := 0
  verfFlavor := 0
  verfLength := 0

/-- The length the node declares: the size of the header, the offset of the payload and the
payload. -/
def packetLen (call : Call) : Word := BitVec.ofNat 32 (40 + 0x80 + call.payload.length)

end Call

def packetTarget (number : Word) : Word := amssRpcPacketBuffer + number * 0x500

def nodeTarget (number : Word) : Word := packetTarget number + 0x400

/-- The channel's state, busy, error and link status bytes; the two ring pointers stay. -/
def openChannel (mem : Memory) : Memory :=
  let ch := (mem.ucMemRead amssSmdChannelAddr 12).getD (List.replicate 12 0)
  writeBytes mem amssSmdChannelAddr ([2, 0, 0, 3] ++ ch.drop 4)

/-- Append a node that is already in memory to the queue. -/
def linkNode (mem : Memory) (node : OncrpcQueueNode) (target : Word) : Memory :=
  let head := loadWord mem amssRpcQueueHead
  let tail := loadWord mem (amssRpcQueueHead + 4)
  let count := loadWord mem (amssRpcQueueHead + 8)
  let (mem, head) :=
    if count = 0 then (mem, target)
    else
      let mem := writeBytes mem tail.toNat (wordBytes target)
      (writeBytes mem target.toNat { node with prev := tail }.bytes, head)
  let mem := writeBytes mem amssRpcQueueHead (wordBytes head)
  let mem := writeBytes mem (amssRpcQueueHead + 4) (wordBytes target)
  writeBytes mem (amssRpcQueueHead + 8) (wordBytes (count + 1))

/-- The body both injectors share. -/
def injectPacketBody (mem : Memory) (number : Word) (call : Call) : Memory :=
  let target := packetTarget number
  let mem := writeBytes mem target.toNat (call.header number).bytes
  let mem :=
    if call.payload.isEmpty then mem else writeBytes mem (target + 0x80).toNat call.payload
  let node : OncrpcQueueNode := ⟨0, 0, target, call.packetLen, 1⟩
  let mem := writeBytes mem (nodeTarget number).toNat node.bytes
  openChannel (linkNode mem node (nodeTarget number))

/-- A bridge with the engine it writes to. -/
structure SmdBridge where
  mem : Memory
  packetsInjected : Word

namespace UnifiedSmdBridge

/-- `inject_packet` takes a payload of any size. -/
def injectPacket (bridge : SmdBridge) (call : Call) : SmdBridge :=
  ⟨injectPacketBody bridge.mem bridge.packetsInjected call, bridge.packetsInjected + 1⟩

def run (mem : Memory) (calls : List Call) : SmdBridge := calls.foldl injectPacket ⟨mem, 0⟩

end UnifiedSmdBridge

namespace VirtualSmdBridge

def payloadMax : Nat := 0x380

/-- MSM Audio/QDSP service. -/
def program : Word := 0x30000060

/-- `inject_oncrpc_packet` rejects an oversize payload before any write. -/
def injectOncrpcPacket (bridge : SmdBridge) (procedure : Word) (payload : List Byte) :
    Bool × SmdBridge :=
  if payload.length > payloadMax then (false, bridge)
  else
    (true, ⟨injectPacketBody bridge.mem bridge.packetsInjected ⟨program, procedure, payload⟩,
      bridge.packetsInjected + 1⟩)

def run (mem : Memory) (calls : List (Word × List Byte)) : SmdBridge :=
  calls.foldl (fun bridge call => (injectOncrpcPacket bridge call.1 call.2).2) ⟨mem, 0⟩

end VirtualSmdBridge

@[simp] theorem OncrpcPacketHeader.length_bytes (hdr : OncrpcPacketHeader) : hdr.bytes.length = 40 := by
  simp [bytes, words]

@[simp] theorem OncrpcQueueNode.length_bytes (node : OncrpcQueueNode) : node.bytes.length = 20 := by
  simp [bytes, words]

end ZeeboLle.Device
