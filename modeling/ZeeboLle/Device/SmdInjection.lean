import ZeeboLle.Device.SmdQueue

/-! Whole runs of the two injectors. The bounded bridge leaves the queue of the calls it
accepted; the production injector does the same as long as no payload reaches its own queue
node. -/
namespace ZeeboLle.Device

open Paging Unicorn

variable {mem : Memory} {bridge : SmdBridge} {slots : Nat} {calls : List Call} {call : Call}

/-- A bridge whose engine holds the queue of the calls injected so far. -/
structure Bridged (bridge : SmdBridge) (slots : Nat) (calls : List Call) : Prop where
  owns : bridge.mem.Owns (smdRegion slots)
  queue : Represents bridge.mem.byteAt calls
  number : bridge.packetsInjected = BitVec.ofNat 32 calls.length
  bounded : ∀ queued ∈ calls, queued.payload.length ≤ 0x380

theorem bridged_start (owns : mem.Owns (smdRegion slots))
    (empty : wordAt mem.byteAt (amssRpcQueueHead + 8) = 0) : Bridged ⟨mem, 0⟩ slots [] where
  owns := owns
  queue := ⟨empty, fun some => absurd rfl some, fun some => absurd rfl some, by simp, by simp, by simp⟩
  number := rfl
  bounded := by simp

theorem Bridged.inject (held : Bridged bridge slots calls) (within : calls.length < slots)
    (fits : call.payload.length ≤ 0x380) :
    Bridged ⟨injectPacketBody bridge.mem bridge.packetsInjected call, bridge.packetsInjected + 1⟩ slots
      (calls ++ [call]) := by
  obtain ⟨owns, queue⟩ := injectPacketBody_represents held.owns held.queue within held.bounded fits
  rw [← held.number] at owns queue
  generalize injectPacketBody bridge.mem bridge.packetsInjected call = after at owns queue ⊢
  refine ⟨owns, queue, ?_, ?_⟩
  · rw [held.number, List.length_append, List.length_singleton, BitVec.ofNat_add]
    rfl
  · intro queued member
    rcases List.mem_append.mp member with old | new
    · exact held.bounded queued old
    · rwa [List.mem_singleton.mp new]

namespace VirtualSmdBridge

/-- The calls the bridge accepts, as packets. -/
def accepted (calls : List (Word × List Byte)) : List Call :=
  (calls.filter fun call => call.2.length ≤ payloadMax).map fun call => ⟨program, call.1, call.2⟩

theorem length_accepted_le (calls : List (Word × List Byte)) :
    (accepted calls).length ≤ calls.length := by
  rw [accepted, List.length_map]
  exact List.length_filter_le _ calls

theorem accepted_snoc (calls : List (Word × List Byte)) (call : Word × List Byte) :
    accepted (calls ++ [call]) = accepted calls ++
      if call.2.length ≤ payloadMax then [⟨program, call.1, call.2⟩] else [] := by
  by_cases fits : call.2.length ≤ payloadMax
  · simp [accepted, fits]
  · simp [accepted, fits]

theorem inject_rejected {procedure : Word} {payload : List Byte} (oversize : payloadMax < payload.length) :
    injectOncrpcPacket bridge procedure payload = (false, bridge) := if_pos oversize

theorem inject_accepted {procedure : Word} {payload : List Byte} (fits : payload.length ≤ payloadMax) :
    injectOncrpcPacket bridge procedure payload =
      (true, ⟨injectPacketBody bridge.mem bridge.packetsInjected ⟨program, procedure, payload⟩,
        bridge.packetsInjected + 1⟩) := if_neg (Nat.not_lt.mpr fits)

theorem run_snoc (mem : Memory) (calls : List (Word × List Byte)) (call : Word × List Byte) :
    run mem (calls ++ [call]) = (injectOncrpcPacket (run mem calls) call.1 call.2).2 := by
  simp [run]

theorem bridged_run (owns : mem.Owns (smdRegion slots))
    (empty : wordAt mem.byteAt (amssRpcQueueHead + 8) = 0) {calls : List (Word × List Byte)}
    (within : calls.length ≤ slots) : Bridged (run mem calls) slots (accepted calls) := by
  induction calls using List.reverseRecOn with
  | nil => exact bridged_start owns empty
  | append_singleton calls call ih =>
    rw [List.length_append, List.length_singleton] at within
    have held := ih (by omega)
    rw [run_snoc, accepted_snoc]
    by_cases fits : call.2.length ≤ payloadMax
    · rw [inject_accepted fits, if_pos fits]
      have queued := length_accepted_le calls
      exact held.inject (by omega) fits
    · rw [inject_rejected (Nat.lt_of_not_le fits), if_neg fits, List.append_nil]
      exact held

/-- The window of the modem's memory that the queue lies in. -/
def amssWindow (address : Nat) : Prop := 0x17500000 ≤ address ∧ address < 0x17900000

theorem smdRegion_amssWindow {address : Nat} (inside : smdRegion 864 address) : amssWindow address := by
  unfold smdRegion slot amssRpcQueueHead amssSmdChannelAddr at inside
  unfold amssWindow
  omega

/-- Zeroed memory holds no packet. -/
theorem zeroed_empty (zero : ∀ address, amssWindow address → mem.byteAt address = 0) :
    wordAt mem.byteAt (amssRpcQueueHead + 8) = 0 := by
  have bytes : segment mem.byteAt (amssRpcQueueHead + 8) 4 =
      segment (fun _ => 0) (amssRpcQueueHead + 8) 4 := by
    apply segment_congr
    intro index below
    exact zero _ (smdRegion_amssWindow (smdRegion_head 8 (by omega)))
  apply wordAt_of_segment
  rw [bytes]
  rfl

/-- After any calls the queue holds exactly the accepted ones, and a rejected call leaves
memory and counter alone. -/
theorem bridge_invariant (owns : mem.Owns amssWindow)
    (zero : ∀ address, amssWindow address → mem.byteAt address = 0)
    {calls : List (Word × List Byte)} (few : calls.length ≤ 864) :
    (∀ before procedure payload after, calls = before ++ (procedure, payload) :: after →
      payloadMax < payload.length →
        injectOncrpcPacket (run mem before) procedure payload = (false, run mem before)) ∧
    Represents (run mem calls).mem.byteAt (accepted calls) := by
  have region : mem.Owns (smdRegion 864) :=
    ⟨fun address inside => owns.mapped address (smdRegion_amssWindow inside),
      fun address other inside also => owns.apart address other (smdRegion_amssWindow inside)
        (smdRegion_amssWindow also)⟩
  exact ⟨fun before procedure payload after _ oversize => inject_rejected oversize,
    (bridged_run region (zeroed_empty zero) few).queue⟩

/-- The modem's memory as the bridge's own test maps it. -/
def amssMemory : Memory := (Memory.blank.ucMemMap 0x17500000 0x400000 .all).2

theorem amssMemory_cell {address : Nat} (inside : amssWindow address) :
    amssMemory.cell address = some (.ram address) := by
  have page : address / 0x1000 ∈ pageSpan 0x17500000 0x400000 := by
    unfold amssWindow at inside
    rw [Span.mem_iff]
    dsimp only [pageSpan]
    omega
  have low : address < 0x100000000 := by
    unfold amssWindow at inside
    omega
  have free : Memory.blank.pages.free (pageSpan 0x17500000 0x400000) = true :=
    PageTable.free_iff.mpr fun _ _ => rfl
  exact Memory.cell_ucMemMap free low page

theorem amssMemory_owns : amssMemory.Owns amssWindow := Memory.owns_ram fun _ => amssMemory_cell

theorem amssMemory_zero {address : Nat} (inside : amssWindow address) :
    amssMemory.byteAt address = 0 := by
  rw [Memory.byteAt_of_cell (amssMemory_cell inside), amssMemory]
  unfold Memory.ucMemMap
  split
  · simp [Memory.contents, Memory.blank]
  · rfl

/-- A payload at the bound is queued, one byte more is rejected. -/
theorem bridge_invariant_atBound :
    amssMemory.Owns amssWindow ∧
      Represents (run amssMemory [(0x1b59, List.replicate 0x380 0x5a),
        (0x1b59, List.replicate 0x381 0xcc)]).mem.byteAt
        (accepted [(0x1b59, List.replicate 0x380 0x5a), (0x1b59, List.replicate 0x381 0xcc)]) :=
  ⟨amssMemory_owns, (bridge_invariant amssMemory_owns (fun _ => amssMemory_zero)
    (Nat.le_of_ble_eq_true rfl)).2⟩

end VirtualSmdBridge

namespace UnifiedSmdBridge

theorem run_snoc (mem : Memory) (calls : List Call) (call : Call) :
    run mem (calls ++ [call]) = injectPacket (run mem calls) call := by simp [run]

theorem bridged_run (owns : mem.Owns (smdRegion slots))
    (empty : wordAt mem.byteAt (amssRpcQueueHead + 8) = 0) (within : calls.length ≤ slots)
    (bounded : ∀ queued ∈ calls, queued.payload.length ≤ 0x380) : Bridged (run mem calls) slots calls := by
  induction calls using List.reverseRecOn with
  | nil => exact bridged_start owns empty
  | append_singleton calls call ih =>
    rw [List.length_append, List.length_singleton] at within
    have held := ih (by omega) fun queued member => bounded queued (by simp [member])
    rw [run_snoc]
    exact held.inject (by omega) (bounded call (by simp))

/-- The calls as the bounded bridge takes them. -/
def bridgeCalls (calls : List Call) : List (Word × List Byte) :=
  calls.map fun call => (call.procedure, call.payload)

/-- The calls as packets of the bounded bridge, which has one program of its own. -/
def bridgePackets (calls : List Call) : List Call :=
  calls.map fun call => { call with program := VirtualSmdBridge.program }

/-- Memory holds the queue of all calls, and the bounded bridge given the same calls holds
the same queue. -/
def QueueSound (mem : Memory) (calls : List Call) : Prop :=
  Represents (run mem calls).mem.byteAt calls ∧
    Represents (VirtualSmdBridge.run mem (bridgeCalls calls)).mem.byteAt (bridgePackets calls)

theorem accepted_all (bounded : ∀ queued ∈ calls, queued.payload.length ≤ 0x380) :
    VirtualSmdBridge.accepted (bridgeCalls calls) = bridgePackets calls := by
  have every : (bridgeCalls calls).filter (fun call => call.2.length ≤ VirtualSmdBridge.payloadMax) =
      bridgeCalls calls := by
    refine List.filter_eq_self.mpr fun packet member => ?_
    obtain ⟨call, queued, rfl⟩ := List.mem_map.mp member
    exact decide_eq_true (bounded call queued)
  rw [VirtualSmdBridge.accepted, every, bridgeCalls, List.map_map]
  rfl

/-- The queue can hold as many packets as there are calls only if none was rejected. -/
theorem bounded_of_length
    (same : (VirtualSmdBridge.accepted (bridgeCalls calls)).length = calls.length) :
    ∀ queued ∈ calls, queued.payload.length ≤ 0x380 := by
  have size : (bridgeCalls calls).length = calls.length := List.length_map ..
  rw [VirtualSmdBridge.accepted, List.length_map, ← size] at same
  intro queued member
  have kept := List.length_filter_eq_length_iff.mp same (queued.procedure, queued.payload)
    (List.mem_map.mpr ⟨queued, member, rfl⟩)
  exact of_decide_eq_true kept

/-- The production injector keeps the queue sound, as the bounded bridge does, exactly when no
payload is longer than the slot has room for. -/
theorem queueSound_iff (owns : mem.Owns (smdRegion calls.length))
    (empty : wordAt mem.byteAt (amssRpcQueueHead + 8) = 0) :
    QueueSound mem calls ↔ ∀ queued ∈ calls, queued.payload.length ≤ 0x380 := by
  have size : (bridgeCalls calls).length = calls.length := List.length_map ..
  have reference := (VirtualSmdBridge.bridged_run owns empty size.le).queue
  constructor
  · rintro ⟨_, refined⟩
    apply bounded_of_length
    have few : calls.length < 0x100000000 := by
      cases number : calls.length with
      | zero => omega
      | succ last =>
        have room := slot_fits owns (show last < calls.length by omega)
        simp only [slot] at room
        omega
    have fewer := VirtualSmdBridge.length_accepted_le (bridgeCalls calls)
    have count := congrArg BitVec.toNat (reference.count.symm.trans refined.count)
    have packets : (bridgePackets calls).length = calls.length := List.length_map ..
    rw [BitVec.toNat_ofNat, BitVec.toNat_ofNat, packets] at count
    omega
  · intro bounded
    rw [accepted_all bounded] at reference
    exact ⟨(bridged_run owns empty (Nat.le_refl _) bounded).queue, reference⟩

end UnifiedSmdBridge

/-- Nodes are aligned, so a link has a zero low byte. -/
theorem nodeTarget_low (number : Word) : BitVec.ofNat 8 (nodeTarget number).toNat = 0 := by
  have base : amssRpcPacketBuffer.toNat = 0x177f2000 := rfl
  have step : (0x500 : Word).toNat = 0x500 := rfl
  have offset : (0x400 : Word).toNat = 0x400 := rfl
  apply BitVec.eq_of_toNat_eq
  rw [nodeTarget, packetTarget, BitVec.toNat_add, BitVec.toNat_add, BitVec.toNat_mul, base, step, offset,
    BitVec.toNat_ofNat]
  change _ = 0
  omega

/-- A payload that reaches its node is overwritten there. -/
theorem Represents.payload_overwritten {view : Nat → Byte} (held : Represents view calls) {number : Nat}
    (found : calls[number]? = some call) (oversize : 0x380 < call.payload.length) :
    call.payload[0x380]? = some 0 := by
  have first : (queuedNode calls.length number call).bytes[0]? =
      some (BitVec.ofNat 8 (queuedNode calls.length number call).next.toNat) := rfl
  have low : BitVec.ofNat 8 (queuedNode calls.length number call).next.toNat = 0 := by
    simp only [queuedNode]
    split
    · exact nodeTarget_low _
    · rfl
  rw [low, ← held.node number call found, getElem?_segment (by omega)] at first
  rw [← held.payload number call found, getElem?_segment oversize]
  exact first

namespace UnifiedSmdBridge

open VirtualSmdBridge

theorem amssMemory_region (slots : Nat) (few : slots ≤ 864) : amssMemory.Owns (smdRegion slots) := by
  refine Memory.owns_ram fun address inside => amssMemory_cell (smdRegion_amssWindow ?_)
  rcases inside with head | channel | packets
  · exact .inl head
  · exact .inr (.inl channel)
  · refine .inr (.inr ⟨packets.1, packets.2.trans_le ?_⟩)
    exact Nat.add_le_add_left (Nat.mul_le_mul_right _ few) _

theorem amssMemory_empty : wordAt amssMemory.byteAt (amssRpcQueueHead + 8) = 0 :=
  zeroed_empty fun _ => amssMemory_zero

/-- One payload of 0x381 bytes; its last byte is lost under the node. -/
def spilling : List Call := [⟨0x31000013, 0x1, List.replicate 0x381 0xcc⟩]

theorem not_represents_spilling :
    amssMemory.Owns (smdRegion spilling.length) ∧
      wordAt amssMemory.byteAt (amssRpcQueueHead + 8) = 0 ∧
      ¬ Represents (run amssMemory spilling).mem.byteAt spilling := by
  refine ⟨amssMemory_region 1 (by omega), amssMemory_empty, fun held => ?_⟩
  have found : spilling[0]? = some ⟨0x31000013, 0x1, List.replicate 0x381 0xcc⟩ := rfl
  have lost := held.payload_overwritten found (by rw [List.length_replicate]; omega)
  rw [List.getElem?_replicate, if_pos (by omega)] at lost
  exact absurd (Option.some.inj lost) (by decide)

/-- Three packets that fit. -/
theorem queueSound_iff_bounded :
    QueueSound amssMemory [⟨0x31000013, 1, [1, 2]⟩, ⟨0x3000000b, 1, []⟩, ⟨0x3000000b, 2, [3]⟩] ↔
      ∀ queued ∈ [(⟨0x31000013, 1, [1, 2]⟩ : Call), ⟨0x3000000b, 1, []⟩, ⟨0x3000000b, 2, [3]⟩],
        queued.payload.length ≤ 0x380 :=
  queueSound_iff (amssMemory_region 3 (by omega)) amssMemory_empty

end UnifiedSmdBridge

end ZeeboLle.Device
