import ZeeboLle.Device.SmdInjection

/-! The audio dispatcher's view of a queued packet: it is handed the bytes a queue node
declares and takes header and payload from them. The node's length counts the header twice,
once as such and once in the offset of the payload. -/
namespace ZeeboLle.Device

open Paging Unicorn

/-- What the dispatcher hands to an engine; which engine that is, is not decided here. -/
structure Command where
  program : Word
  procId : Word
  payload : List Byte
deriving DecidableEq

def kMaxPayload : Nat := 0x500
def kPayloadOff : Nat := 0x80

/-- A word of a packet. -/
def packetWord (packet : List Byte) (offset : Nat) : Word :=
  BitVec.ofNat 32 (leValue ((packet.drop offset).take 4))

/-- The command `feed_raw` builds from a raw packet: none below the size of a header, and at
most `kMaxPayload` bytes are looked at. -/
def feedRaw (packet : List Byte) : Option Command :=
  if packet.length < 40 then none
  else
    let len := min packet.length kMaxPayload
    some
      { program := packetWord packet 0xc
        procId := packetWord packet 0x14
        payload := if len > kPayloadOff then (packet.take len).drop kPayloadOff else [] }

/-- The bytes from `packet_addr` that a node declares. -/
def declaredBytes (mem : Memory) (node : Nat) : Option (List Byte) :=
  mem.ucMemRead (loadWord mem (node + 8)).toNat (loadWord mem (node + 12)).toNat

/-- The declared bytes decode to the procedure and the payload of the call, and they end before
the node. -/
def DecodesBack (mem : Memory) (node : Nat) (call : Call) : Prop :=
  (∃ packet command, declaredBytes mem node = some packet ∧ feedRaw packet = some command ∧
    command.procId = call.procedure ∧ command.payload = call.payload) ∧
    (loadWord mem (node + 8)).toNat + (loadWord mem (node + 12)).toNat ≤ node

variable {mem : Memory} {slots : Nat} {calls : List Call} {call : Call} {bridge : SmdBridge}

/-- The words of a node. -/
theorem wordAt_node {view : Nat → Byte} {start : Nat} {node : OncrpcQueueNode}
    (holds : segment view start 20 = node.bytes) :
    wordAt view (start + 8) = node.packetAddr ∧ wordAt view (start + 12) = node.packetLen := by
  have field (offset : Nat) (inside : offset + 4 ≤ 20) :
      segment view (start + offset) 4 = (node.bytes.drop offset).take 4 := by
    rw [← holds, drop_segment (by omega), take_segment (by omega)]
  exact ⟨wordAt_of_segment (field 8 (by omega)), wordAt_of_segment (field 12 (by omega))⟩

theorem toNat_packetLen (fits : call.payload.length ≤ 0x380) :
    call.packetLen.toNat = 0xa8 + call.payload.length := by
  rw [Call.packetLen, BitVec.toNat_ofNat]
  omega

/-- A node declares forty bytes more than its packet has. -/
theorem Bridged.declaredBytes_eq (held : Bridged bridge slots calls) (within : calls.length ≤ slots)
    {number : Nat} (found : calls[number]? = some call) :
    declaredBytes bridge.mem (slot number + 0x400) =
      some (segment bridge.mem.byteAt (slot number) (0xa8 + call.payload.length)) := by
  have packet : number < slots := (getElem?_lt found).trans_le within
  have fits := held.bounded call (List.mem_of_getElem? found)
  have room := slot_fits held.owns packet
  have word (offset : Nat) (inside : offset + 4 ≤ 20) :
      loadWord bridge.mem (slot number + 0x400 + offset) =
        wordAt bridge.mem.byteAt (slot number + 0x400 + offset) :=
    loadWord_sees held.owns.sees fun index below => by
      rw [Nat.add_assoc (slot number)]
      exact smdRegion_slot (0x400 + offset) packet (by omega)
  obtain ⟨address, length⟩ := wordAt_node (held.queue.node number call found)
  rw [declaredBytes, word 8 (by omega), word 12 (by omega), address, length]
  change bridge.mem.ucMemRead (packetTarget (BitVec.ofNat 32 number)).toNat call.packetLen.toNat = _
  rw [toNat_packetTarget room, toNat_packetLen fits]
  apply held.owns.sees.ucMemRead
  intro index below
  exact smdRegion_slot 0 packet (by omega)

/-- The decoder takes forty bytes after the payload for part of it. -/
theorem feedRaw_payload {packet : List Byte} {command : Command} {size : Nat} (room : size ≤ 0x380)
    (length : packet.length = 0xa8 + size) (decoded : feedRaw packet = some command) :
    command.payload.length = size + 40 := by
  have long : ¬ packet.length < 40 := by omega
  have whole : min packet.length kMaxPayload = packet.length := by
    rw [kMaxPayload]
    omega
  rw [feedRaw, if_neg long, whole] at decoded
  have beyond : packet.length > kPayloadOff := by
    rw [kPayloadOff]
    omega
  dsimp only at decoded
  rw [if_pos beyond, List.take_length] at decoded
  rw [← Option.some.inj decoded]
  change (packet.drop kPayloadOff).length = size + 40
  rw [List.length_drop, kPayloadOff]
  omega

theorem Bridged.not_decodesBack (held : Bridged bridge slots calls) (within : calls.length ≤ slots)
    {number : Nat} (found : calls[number]? = some call) :
    ¬ DecodesBack bridge.mem (slot number + 0x400) call := by
  rintro ⟨⟨packet, command, declared, decoded, _, payload⟩, _⟩
  have fits := held.bounded call (List.mem_of_getElem? found)
  rw [held.declaredBytes_eq within found, Option.some.injEq] at declared
  have length : packet.length = 0xa8 + call.payload.length := by rw [← declared, length_segment]
  have more := feedRaw_payload fits length decoded
  rw [payload] at more
  omega

/-- Whatever is injected by either injector, no packet of the queue decodes to its own
payload. -/
theorem never_decodesBack (owns : mem.Owns (smdRegion calls.length))
    (empty : wordAt mem.byteAt (amssRpcQueueHead + 8) = 0)
    (bounded : ∀ queued ∈ calls, queued.payload.length ≤ 0x380) (number : Nat)
    (found : calls[number]? = some call) :
    ¬ DecodesBack (UnifiedSmdBridge.run mem calls).mem (slot number + 0x400) call ∧
      ¬ DecodesBack (VirtualSmdBridge.run mem (UnifiedSmdBridge.bridgeCalls calls)).mem
        (slot number + 0x400) { call with program := VirtualSmdBridge.program } := by
  have size : (UnifiedSmdBridge.bridgeCalls calls).length = calls.length := List.length_map ..
  have packets : (UnifiedSmdBridge.bridgePackets calls).length = calls.length := List.length_map ..
  have production := UnifiedSmdBridge.bridged_run owns empty (Nat.le_refl _) bounded
  have reference := VirtualSmdBridge.bridged_run owns empty size.le
  rw [UnifiedSmdBridge.accepted_all bounded] at reference
  refine ⟨production.not_decodesBack (Nat.le_refl _) found,
    reference.not_decodesBack packets.le ?_⟩
  rw [UnifiedSmdBridge.bridgePackets, List.getElem?_map, found]
  rfl

open UnifiedSmdBridge VirtualSmdBridge

/-- An empty payload comes back as forty bytes. -/
theorem not_decodesBack_empty :
    amssMemory.Owns (smdRegion 1) ∧ wordAt amssMemory.byteAt (amssRpcQueueHead + 8) = 0 ∧
      ¬ DecodesBack (UnifiedSmdBridge.run amssMemory [⟨0x31000013, 0x1, []⟩]).mem (slot 0 + 0x400)
        ⟨0x31000013, 0x1, []⟩ := by
  have owns := amssMemory_region 1 (by omega)
  refine ⟨owns, amssMemory_empty, ?_⟩
  have held : Bridged (UnifiedSmdBridge.run amssMemory [⟨0x31000013, 0x1, []⟩]) 1
      [⟨0x31000013, 0x1, []⟩] :=
    UnifiedSmdBridge.bridged_run owns amssMemory_empty (Nat.le_refl 1) (by simp)
  exact held.not_decodesBack (Nat.le_refl 1) rfl

theorem never_decodesBack_threeBytes :
    (∀ queued ∈ [(⟨0x31000013, 0x1, [1, 2, 3]⟩ : Call)], queued.payload.length ≤ 0x380) ∧
      ¬ DecodesBack (UnifiedSmdBridge.run amssMemory [⟨0x31000013, 0x1, [1, 2, 3]⟩]).mem
        (slot 0 + 0x400) ⟨0x31000013, 0x1, [1, 2, 3]⟩ := by
  have bounded : ∀ queued ∈ [(⟨0x31000013, 0x1, [1, 2, 3]⟩ : Call)], queued.payload.length ≤ 0x380 := by
    simp
  refine ⟨bounded, (never_decodesBack ?_ amssMemory_empty bounded 0 rfl).1⟩
  exact amssMemory_region 1 (by omega)

end ZeeboLle.Device
