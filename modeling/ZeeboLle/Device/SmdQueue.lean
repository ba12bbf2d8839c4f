import ZeeboLle.Device.SmdBridge
import Mathlib.Data.List.Induction

/-! The queue the injectors build, as a doubly linked list in memory: what one injection of a
bounded payload adds to it, and from that what any number of injections leaves. -/
namespace ZeeboLle.Device

open Paging Unicorn

/-- The slot of a packet. -/
def slot (number : Nat) : Nat := 0x177f2000 + number * 0x500

/-- The queue head, the channel and the first slots. -/
def smdRegion (slots address : Nat) : Prop :=
  (amssRpcQueueHead ≤ address ∧ address < amssRpcQueueHead + 12) ∨
    (amssSmdChannelAddr ≤ address ∧ address < amssSmdChannelAddr + 12) ∨
    (slot 0 ≤ address ∧ address < slot slots)

/-- The node of a packet in a queue of a given length. -/
def queuedNode (total number : Nat) (call : Call) : OncrpcQueueNode where
  next := if number + 1 < total then nodeTarget (BitVec.ofNat 32 (number + 1)) else 0
  prev := if number = 0 then 0 else nodeTarget (BitVec.ofNat 32 (number - 1))
  packetAddr := packetTarget (BitVec.ofNat 32 number)
  packetLen := call.packetLen
  status := 1

/-- Memory holds the calls as a doubly linked queue in order: head, tail and count, and for
each packet its node, its header and its payload. -/
structure Represents (view : Nat → Byte) (calls : List Call) : Prop where
  count : wordAt view (amssRpcQueueHead + 8) = BitVec.ofNat 32 calls.length
  first : calls ≠ [] → wordAt view amssRpcQueueHead = nodeTarget 0
  last : calls ≠ [] → wordAt view (amssRpcQueueHead + 4) =
    nodeTarget (BitVec.ofNat 32 (calls.length - 1))
  node : ∀ number call, calls[number]? = some call →
    segment view (slot number + 0x400) 20 = (queuedNode calls.length number call).bytes
  header : ∀ number call, calls[number]? = some call →
    segment view (slot number) 40 = (call.header (BitVec.ofNat 32 number)).bytes
  payload : ∀ number call, calls[number]? = some call →
    segment view (slot number + 0x80) call.payload.length = call.payload

variable {mem : Memory} {view after : Nat → Byte} {slots number : Nat} {call : Call}

theorem slot_fits (owns : mem.Owns (smdRegion slots)) (within : number < slots) :
    slot number + 0x500 ≤ 0x100000000 := by
  have last : smdRegion slots (slot number + 0x4ff) := by
    refine .inr (.inr ⟨?_, ?_⟩)
    · simp only [slot]
      omega
    · simp only [slot]
      omega
  have mapped := (Memory.isSome_cell.mp (owns.mapped _ last)).1
  omega

theorem toNat_packetTarget (fits : slot number + 0x500 ≤ 0x100000000) :
    (packetTarget (BitVec.ofNat 32 number)).toNat = slot number := by
  have base : amssRpcPacketBuffer.toNat = 0x177f2000 := rfl
  have step : (0x500 : Word).toNat = 0x500 := rfl
  unfold slot at fits ⊢
  rw [packetTarget, BitVec.toNat_add, BitVec.toNat_mul, BitVec.toNat_ofNat, base, step]
  omega

theorem toNat_payloadTarget (fits : slot number + 0x500 ≤ 0x100000000) :
    (packetTarget (BitVec.ofNat 32 number) + 0x80).toNat = slot number + 0x80 := by
  have offset : (0x80 : Word).toNat = 0x80 := rfl
  rw [BitVec.toNat_add, toNat_packetTarget fits, offset]
  omega

theorem toNat_nodeTarget (fits : slot number + 0x500 ≤ 0x100000000) :
    (nodeTarget (BitVec.ofNat 32 number)).toNat = slot number + 0x400 := by
  have offset : (0x400 : Word).toNat = 0x400 := rfl
  rw [nodeTarget, BitVec.toNat_add, toNat_packetTarget fits, offset]
  omega

/-- What the injector writes below the slots. -/
def headPatched (view : Nat → Byte) (head tail count : Word) (channel : List Byte) : Nat → Byte :=
  patch (patch (patch (patch view amssRpcQueueHead (wordBytes head)) (amssRpcQueueHead + 4)
    (wordBytes tail)) (amssRpcQueueHead + 8) (wordBytes count)) amssSmdChannelAddr channel

section HeadPatched

variable {head tail count : Word} {channel : List Byte}

theorem segment_headPatched {start size : Nat} (short : channel.length = 12) (above : slot 0 ≤ start) :
    segment (headPatched view head tail count channel) start size = segment view start size := by
  have base : 0x177f2000 ≤ start := by simpa [slot] using above
  rw [headPatched, segment_patch_apart, segment_patch_apart, segment_patch_apart, segment_patch_apart]
  · rw [length_wordBytes, amssRpcQueueHead]
    omega
  · rw [length_wordBytes, amssRpcQueueHead]
    omega
  · rw [length_wordBytes, amssRpcQueueHead]
    omega
  · rw [short, amssSmdChannelAddr]
    omega

theorem wordAt_headPatched (view : Nat → Byte) (head tail count : Word) (short : channel.length = 12) :
    wordAt (headPatched view head tail count channel) amssRpcQueueHead = head ∧
      wordAt (headPatched view head tail count channel) (amssRpcQueueHead + 4) = tail ∧
      wordAt (headPatched view head tail count channel) (amssRpcQueueHead + 8) = count := by
  have written (start : Nat) (store : Nat → Byte) (word : Word) :
      segment (patch store start (wordBytes word)) start 4 = wordBytes word := by
    have whole := segment_patch store start (wordBytes word)
    rwa [length_wordBytes] at whole
  have clear (start : Nat) (store : Nat → Byte) (above : amssRpcQueueHead ≤ start) :
      segment (patch store amssSmdChannelAddr channel) start 4 = segment store start 4 := by
    apply segment_patch_apart
    rw [amssRpcQueueHead] at above
    rw [short, amssSmdChannelAddr]
    omega
  refine ⟨wordAt_of_segment ?_, wordAt_of_segment ?_, wordAt_of_segment ?_⟩
  · rw [headPatched, clear _ _ (Nat.le_refl _), segment_patch_apart (by omega),
      segment_patch_apart (by omega), written]
  · rw [headPatched, clear _ _ (by omega), segment_patch_apart (by omega), written]
  · rw [headPatched, clear _ _ (by omega), written]

end HeadPatched

theorem smdRegion_head (offset : Nat) {index : Nat} (below : offset + index < 12) :
    smdRegion slots (amssRpcQueueHead + offset + index) := .inl ⟨by omega, by omega⟩

theorem smdRegion_channel {index : Nat} (below : index < 12) :
    smdRegion slots (amssSmdChannelAddr + index) := .inr (.inl ⟨by omega, by omega⟩)

theorem smdRegion_slot (offset : Nat) {index : Nat} (within : number < slots)
    (below : offset + index < 0x500) :
    smdRegion slots (slot number + offset + index) := by
  refine .inr (.inr ⟨?_, ?_⟩)
  · simp only [slot]
    omega
  · simp only [slot]
    omega

theorem writeHead_sees (sees : mem.Sees (smdRegion slots) view) (offset : Nat) (fits : offset + 4 ≤ 12)
    (word : Word) :
    (writeBytes mem (amssRpcQueueHead + offset) (wordBytes word)).Sees (smdRegion slots)
      (patch view (amssRpcQueueHead + offset) (wordBytes word)) := by
  apply sees.ucMemWrite
  intro index below
  rw [length_wordBytes] at below
  exact smdRegion_head offset (by omega)

theorem openChannel_sees (sees : mem.Sees (smdRegion slots) view) :
    ∃ channel : List Byte, channel.length = 12 ∧
      (openChannel mem).Sees (smdRegion slots) (patch view amssSmdChannelAddr channel) := by
  have read := sees.ucMemRead amssSmdChannelAddr 12 fun index below => smdRegion_channel below
  have bytes : ([2, 0, 0, 3] ++ (segment view amssSmdChannelAddr 12).drop 4 : List Byte).length = 12 := by
    rw [List.length_append, List.length_drop, length_segment]
    rfl
  refine ⟨_, bytes, ?_⟩
  rw [openChannel, read]
  apply sees.ucMemWrite
  intro index below
  exact smdRegion_channel (by rwa [Option.getD_some, bytes] at below)

/-- Head, tail and count are written, and the channel is opened. -/
theorem headPatched_sees (sees : mem.Sees (smdRegion slots) view) (head tail count : Word) :
    ∃ channel : List Byte, channel.length = 12 ∧
      (openChannel (writeBytes (writeBytes (writeBytes mem amssRpcQueueHead (wordBytes head))
        (amssRpcQueueHead + 4) (wordBytes tail)) (amssRpcQueueHead + 8) (wordBytes count))).Sees
        (smdRegion slots) (headPatched view head tail count channel) := by
  have first := writeHead_sees sees 0 (by omega) head
  have second := writeHead_sees first 4 (by omega) tail
  have third := writeHead_sees second 8 (by omega) count
  exact openChannel_sees third

theorem writeSlot_sees (sees : mem.Sees (smdRegion slots) view) (within : number < slots)
    (offset : Nat) (bytes : List Byte) (fits : offset + bytes.length ≤ 0x500) :
    (writeBytes mem (slot number + offset) bytes).Sees (smdRegion slots)
      (patch view (slot number + offset) bytes) := by
  apply sees.ucMemWrite
  intro index below
  exact smdRegion_slot offset within (by omega)

/-- The first node becomes head and tail. -/
theorem linkNode_first (sees : mem.Sees (smdRegion slots) view)
    (empty : wordAt view (amssRpcQueueHead + 8) = 0) (node : OncrpcQueueNode) (target : Word) :
    ∃ channel : List Byte, channel.length = 12 ∧ (openChannel (linkNode mem node target)).Sees
      (smdRegion slots) (headPatched view target target 1 channel) := by
  have count := loadWord_sees sees (fun index below => smdRegion_head 8 (by omega))
  rw [linkNode, count, empty]
  exact headPatched_sees sees target target 1

/-- A later node is linked behind the tail. -/
theorem linkNode_later (sees : mem.Sees (smdRegion slots) view) (within : number + 1 < slots)
    (some : wordAt view (amssRpcQueueHead + 8) ≠ 0) (node : OncrpcQueueNode)
    (tail : wordAt view (amssRpcQueueHead + 4) = nodeTarget (BitVec.ofNat 32 number)) :
    ∃ channel : List Byte, channel.length = 12 ∧
      (openChannel (linkNode mem node (nodeTarget (BitVec.ofNat 32 (number + 1))))).Sees
        (smdRegion slots)
        (headPatched
          (patch (patch view (slot number + 0x400)
              (wordBytes (nodeTarget (BitVec.ofNat 32 (number + 1)))))
            (slot (number + 1) + 0x400)
            { node with prev := nodeTarget (BitVec.ofNat 32 number) }.bytes)
          (wordAt view amssRpcQueueHead) (nodeTarget (BitVec.ofNat 32 (number + 1)))
          (wordAt view (amssRpcQueueHead + 8) + 1) channel) := by
  have head := loadWord_sees sees (fun index below => smdRegion_head 0 (by omega))
  have last := loadWord_sees sees (fun index below => smdRegion_head 4 (by omega))
  have count := loadWord_sees sees (fun index below => smdRegion_head 8 (by omega))
  rw [Nat.add_zero] at head
  have relinked := writeSlot_sees sees (Nat.lt_of_succ_lt within) 0x400
    (wordBytes (nodeTarget (BitVec.ofNat 32 (number + 1)))) (by rw [length_wordBytes]; omega)
  have rewritten := writeSlot_sees relinked within 0x400
    { node with prev := nodeTarget (BitVec.ofNat 32 number) }.bytes
    (by rw [OncrpcQueueNode.length_bytes]; omega)
  rw [linkNode, count, head, last, if_neg some, tail,
    toNat_nodeTarget (slot_fits sees.owns (Nat.lt_of_succ_lt within)),
    toNat_nodeTarget (slot_fits sees.owns within)]
  exact headPatched_sees rewritten _ _ _

/-- Header, payload and node written into the slot. -/
def packetPatched (view : Nat → Byte) (number : Nat) (call : Call) (node : OncrpcQueueNode) :
    Nat → Byte :=
  patch (patch (patch view (slot number) (call.header (BitVec.ofNat 32 number)).bytes)
    (slot number + 0x80) call.payload) (slot number + 0x400) node.bytes

theorem packetPatched_sees (sees : mem.Sees (smdRegion slots) view) (within : number < slots)
    (fits : call.payload.length ≤ 0x380) (node : OncrpcQueueNode) :
    (writeBytes
      (if call.payload.isEmpty then
        writeBytes mem (slot number) (call.header (BitVec.ofNat 32 number)).bytes
      else
        writeBytes (writeBytes mem (slot number) (call.header (BitVec.ofNat 32 number)).bytes)
          (slot number + 0x80) call.payload)
      (slot number + 0x400) node.bytes).Sees (smdRegion slots) (packetPatched view number call node) := by
  have header := writeSlot_sees sees within 0 (call.header (BitVec.ofNat 32 number)).bytes
    (by rw [OncrpcPacketHeader.length_bytes]; omega)
  apply writeSlot_sees _ within
  · rw [OncrpcQueueNode.length_bytes]
    omega
  · split
    · rename_i empty
      rw [List.isEmpty_iff.mp empty, patch_nil]
      exact header
    · exact writeSlot_sees header within 0x80 call.payload (by omega)

section PacketPatched

variable {node : OncrpcQueueNode}

/-- A block in the slot of another packet, or below the slots. -/
theorem segment_packetPatched_apart {start size : Nat} (fits : call.payload.length ≤ 0x380)
    (apart : start + size ≤ slot number ∨ slot number + 0x500 ≤ start) :
    segment (packetPatched view number call node) start size = segment view start size := by
  rw [packetPatched, segment_patch_apart, segment_patch_apart, segment_patch_apart]
  · rw [OncrpcPacketHeader.length_bytes]
    omega
  · omega
  · rw [OncrpcQueueNode.length_bytes]
    omega

theorem segment_packetPatched_header :
    segment (packetPatched view number call node) (slot number) 40 =
      (call.header (BitVec.ofNat 32 number)).bytes := by
  have whole := segment_patch view (slot number) (call.header (BitVec.ofNat 32 number)).bytes
  rw [OncrpcPacketHeader.length_bytes] at whole
  rw [packetPatched, segment_patch_apart, segment_patch_apart, whole]
  · omega
  · omega

theorem segment_packetPatched_payload (fits : call.payload.length ≤ 0x380) :
    segment (packetPatched view number call node) (slot number + 0x80) call.payload.length =
      call.payload := by
  rw [packetPatched, segment_patch_apart (by omega), segment_patch]

theorem segment_packetPatched_node :
    segment (packetPatched view number call node) (slot number + 0x400) 20 = node.bytes := by
  have whole := segment_patch (patch (patch view (slot number)
    (call.header (BitVec.ofNat 32 number)).bytes) (slot number + 0x80) call.payload)
    (slot number + 0x400) node.bytes
  rwa [OncrpcQueueNode.length_bytes] at whole

end PacketPatched

/-- The node as it is first written. -/
def freshNode (number : Nat) (call : Call) : OncrpcQueueNode :=
  ⟨0, 0, packetTarget (BitVec.ofNat 32 number), call.packetLen, 1⟩

theorem injectPacketBody_eq (fits : slot number + 0x500 ≤ 0x100000000) (call : Call) :
    injectPacketBody mem (BitVec.ofNat 32 number) call =
      openChannel (linkNode
        (writeBytes
          (if call.payload.isEmpty then
            writeBytes mem (slot number) (call.header (BitVec.ofNat 32 number)).bytes
          else
            writeBytes (writeBytes mem (slot number) (call.header (BitVec.ofNat 32 number)).bytes)
              (slot number + 0x80) call.payload)
          (slot number + 0x400) (freshNode number call).bytes)
        (freshNode number call) (nodeTarget (BitVec.ofNat 32 number))) := by
  rw [injectPacketBody, toNat_packetTarget fits, toNat_payloadTarget fits, toNat_nodeTarget fits]
  rfl

theorem wordAt_packetPatched (view : Nat → Byte) (number : Nat) (node : OncrpcQueueNode)
    (fits : call.payload.length ≤ 0x380) {offset : Nat} (inside : offset + 4 ≤ 12) :
    wordAt (packetPatched view number call node) (amssRpcQueueHead + offset) =
      wordAt view (amssRpcQueueHead + offset) := by
  rw [wordAt, segment_packetPatched_apart fits, wordAt]
  simp only [slot, amssRpcQueueHead]
  omega

theorem represents_first {channel : List Byte} (short : channel.length = 12)
    (fits : call.payload.length ≤ 0x380) :
    Represents (headPatched (packetPatched view 0 call (freshNode 0 call)) (nodeTarget 0)
      (nodeTarget 0) 1 channel) [call] := by
  obtain ⟨head, tail, count⟩ := wordAt_headPatched (packetPatched view 0 call (freshNode 0 call))
    (nodeTarget 0) (nodeTarget 0) 1 short
  have only {number : Nat} {queued : Call} (found : [call][number]? = some queued) :
      number = 0 ∧ call = queued := by
    cases number with
    | zero => exact ⟨rfl, by simpa using found⟩
    | succ number => simp at found
  refine ⟨count, fun _ => head, fun _ => tail, ?_, ?_, ?_⟩
  · intro number queued found
    obtain ⟨rfl, rfl⟩ := only found
    rw [segment_headPatched short (by simp [slot]), segment_packetPatched_node]
    rfl
  · intro number queued found
    obtain ⟨rfl, rfl⟩ := only found
    rw [segment_headPatched short (Nat.le_refl _), segment_packetPatched_header]
  · intro number queued found
    obtain ⟨rfl, rfl⟩ := only found
    rw [segment_headPatched short (by simp [slot]), segment_packetPatched_payload fits]

/-- A node differs from the one with another successor in its first word. -/
theorem OncrpcQueueNode.bytes_next (node : OncrpcQueueNode) (next : Word) :
    { node with next }.bytes = wordBytes next ++ node.bytes.drop 4 := by
  have front : node.bytes =
      wordBytes node.next ++ [node.prev, node.packetAddr, node.packetLen, node.status].flatMap wordBytes :=
    rfl
  rw [front, List.drop_append_of_le_length (by simp), List.drop_of_length_le (by simp)]
  rfl

/-- The view after a later packet, whose number is one above the tail's. -/
def laterPatched (view : Nat → Byte) (number : Nat) (call : Call) : Nat → Byte :=
  patch
    (patch (packetPatched view (number + 1) call (freshNode (number + 1) call)) (slot number + 0x400)
      (wordBytes (nodeTarget (BitVec.ofNat 32 (number + 1)))))
    (slot (number + 1) + 0x400)
    { freshNode (number + 1) call with prev := nodeTarget (BitVec.ofNat 32 number) }.bytes

/-- A block of an earlier slot that is not the tail's link stays. -/
theorem segment_laterPatched_old {start size : Nat} (fits : call.payload.length ≤ 0x380)
    (below : start + size ≤ slot (number + 1))
    (apart : start + size ≤ slot number + 0x400 ∨ slot number + 0x404 ≤ start) :
    segment (laterPatched view number call) start size = segment view start size := by
  rw [laterPatched, segment_patch_apart (by omega), segment_patch_apart,
    segment_packetPatched_apart fits (.inl below)]
  rw [length_wordBytes]
  omega

theorem segment_laterPatched_link :
    segment (laterPatched view number call) (slot number + 0x400) 4 =
      wordBytes (nodeTarget (BitVec.ofNat 32 (number + 1))) := by
  have whole := segment_patch (packetPatched view (number + 1) call (freshNode (number + 1) call))
    (slot number + 0x400) (wordBytes (nodeTarget (BitVec.ofNat 32 (number + 1))))
  rw [length_wordBytes] at whole
  rw [laterPatched, segment_patch_apart, whole]
  simp only [slot]
  omega

theorem segment_laterPatched_node :
    segment (laterPatched view number call) (slot (number + 1) + 0x400) 20 =
      { freshNode (number + 1) call with prev := nodeTarget (BitVec.ofNat 32 number) }.bytes := by
  have whole := segment_patch (patch (packetPatched view (number + 1) call
    (freshNode (number + 1) call)) (slot number + 0x400)
    (wordBytes (nodeTarget (BitVec.ofNat 32 (number + 1))))) (slot (number + 1) + 0x400)
    { freshNode (number + 1) call with prev := nodeTarget (BitVec.ofNat 32 number) }.bytes
  rwa [OncrpcQueueNode.length_bytes] at whole

/-- Header and payload of the new packet. -/
theorem segment_laterPatched_new (view : Nat → Byte) (number : Nat) (call : Call) (offset size : Nat)
    (inside : offset + size ≤ 0x400) :
    segment (laterPatched view number call) (slot (number + 1) + offset) size =
      segment (packetPatched view (number + 1) call (freshNode (number + 1) call))
        (slot (number + 1) + offset) size := by
  rw [laterPatched, segment_patch_apart (by omega), segment_patch_apart]
  rw [length_wordBytes]
  simp only [slot]
  omega

variable {calls : List Call}

theorem getElem?_lt {number : Nat} {queued : Call} (found : calls[number]? = some queued) :
    number < calls.length := (List.getElem?_eq_some_iff.mp found).1

/-- The nodes of a queue that grew by a packet. -/
theorem Represents.node_later (held : Represents view calls) (size : calls.length = number + 1)
    (fits : call.payload.length ≤ 0x380) (index : Nat) (queued : Call)
    (found : calls[index]? = some queued) :
    segment (laterPatched view number call) (slot index + 0x400) 20 =
      (queuedNode (number + 2) index queued).bytes := by
  have below : index < number + 1 := size ▸ getElem?_lt found
  have before := held.node index queued found
  rw [size] at before
  by_cases tail : index = number
  · subst tail
    have relinked : queuedNode (index + 2) index queued = { queuedNode (index + 1) index queued with
        next := nodeTarget (BitVec.ofNat 32 (index + 1)) } := by
      simp [queuedNode]
    have rest : segment (laterPatched view index call) (slot index + 0x400 + 4) 16 =
        (queuedNode (index + 1) index queued).bytes.drop 4 := by
      rw [segment_laterPatched_old fits, ← before, drop_segment (by omega)]
      · simp only [slot]
        omega
      · omega
    have split := segment_add (laterPatched view index call) (slot index + 0x400) 4 16
    rw [relinked, OncrpcQueueNode.bytes_next, split, segment_laterPatched_link, rest]
  · have earlier : queuedNode (number + 2) index queued = queuedNode (number + 1) index queued := by
      have inner : index + 1 < number + 1 := by omega
      simp [queuedNode, inner, Nat.lt_succ_of_lt inner]
    rw [earlier, ← before]
    apply segment_laterPatched_old fits
    · simp only [slot]
      omega
    · simp only [slot]
      omega

theorem represents_later {channel : List Byte} (short : channel.length = 12)
    (held : Represents view calls) (size : calls.length = number + 1)
    (bounded : ∀ queued ∈ calls, queued.payload.length ≤ 0x380)
    (fits : call.payload.length ≤ 0x380) :
    Represents (headPatched (laterPatched view number call) (nodeTarget 0)
      (nodeTarget (BitVec.ofNat 32 (number + 1))) (BitVec.ofNat 32 (number + 2)) channel)
      (calls ++ [call]) := by
  obtain ⟨head, tail, count⟩ := wordAt_headPatched (laterPatched view number call) (nodeTarget 0)
    (nodeTarget (BitVec.ofNat 32 (number + 1))) (BitVec.ofNat 32 (number + 2)) short
  have total : (calls ++ [call]).length = number + 2 := by simp [size]
  -- a packet of the longer queue is an old one or the new one
  have which {index : Nat} {queued : Call} (found : (calls ++ [call])[index]? = some queued) :
      calls[index]? = some queued ∨ index = number + 1 ∧ call = queued := by
    have below := getElem?_lt found
    by_cases old : index < calls.length
    · exact .inl (by rwa [List.getElem?_append_left old] at found)
    · have here : index = number + 1 := by omega
      subst here
      rw [List.getElem?_append_right (by omega), size] at found
      exact .inr ⟨rfl, by simpa using found⟩
  have above (index offset : Nat) : slot 0 ≤ slot index + offset := by
    simp only [slot]
    omega
  refine ⟨by rw [count, total], fun _ => head, fun _ => by rw [tail, total]; rfl, ?_, ?_, ?_⟩
  · intro index queued found
    rw [segment_headPatched short (above index 0x400), total]
    rcases which found with old | ⟨rfl, rfl⟩
    · exact held.node_later size fits index queued old
    · rw [segment_laterPatched_node]
      simp [queuedNode, freshNode]
  · intro index queued found
    rw [segment_headPatched short (by simpa using above index 0)]
    rcases which found with old | ⟨rfl, rfl⟩
    · have below : index < number + 1 := size ▸ getElem?_lt old
      rw [segment_laterPatched_old fits, held.header index queued old]
      · simp only [slot]
        omega
      · simp only [slot]
        omega
    · have new := segment_laterPatched_new view number call 0 40 (by omega)
      simp only [Nat.add_zero] at new
      rw [new, segment_packetPatched_header]
  · intro index queued found
    rw [segment_headPatched short (above index 0x80)]
    rcases which found with old | ⟨rfl, rfl⟩
    · have below : index < number + 1 := size ▸ getElem?_lt old
      have room := bounded queued (List.mem_of_getElem? old)
      rw [segment_laterPatched_old fits, held.payload index queued old]
      · simp only [slot]
        omega
      · simp only [slot]
        omega
    · rw [segment_laterPatched_new view number call 0x80 _ (by omega), segment_packetPatched_payload fits]

/-- The queue lies in the region of its packets. -/
theorem Represents.congr (held : Represents view calls) (within : calls.length ≤ slots)
    (bounded : ∀ queued ∈ calls, queued.payload.length ≤ 0x380)
    (same : ∀ address, smdRegion slots address → after address = view address) :
    Represents after calls := by
  have words (offset : Nat) (inside : offset + 4 ≤ 12) :
      wordAt after (amssRpcQueueHead + offset) = wordAt view (amssRpcQueueHead + offset) := by
    rw [wordAt, wordAt]
    congr 2
    exact segment_congr fun index below => same _ (smdRegion_head offset (by omega))
  have blocks {index : Nat} (offset size : Nat) {queued : Call}
      (found : calls[index]? = some queued) (inside : offset + size ≤ 0x500) :
      segment after (slot index + offset) size = segment view (slot index + offset) size := by
    have packet := getElem?_lt found
    exact segment_congr fun index below => same _ (smdRegion_slot offset (by omega) (by omega))
  refine ⟨(words 8 (by omega)).trans held.count, fun some => (words 0 (by omega)).trans (held.first some),
    fun some => (words 4 (by omega)).trans (held.last some), ?_, ?_, ?_⟩
  · intro index queued found
    rw [blocks 0x400 20 found (by omega), held.node index queued found]
  · intro index queued found
    exact (blocks 0 40 found (by omega)).trans (held.header index queued found)
  · intro index queued found
    have room := bounded queued (List.mem_of_getElem? found)
    rw [blocks 0x80 _ found (by omega), held.payload index queued found]

/-- An injection of a bounded payload appends the call to the queue. -/
theorem injectPacketBody_represents (owns : mem.Owns (smdRegion slots))
    (held : Represents mem.byteAt calls) (within : calls.length < slots)
    (bounded : ∀ queued ∈ calls, queued.payload.length ≤ 0x380)
    (fits : call.payload.length ≤ 0x380) :
    (injectPacketBody mem (BitVec.ofNat 32 calls.length) call).Owns (smdRegion slots) ∧
      Represents (injectPacketBody mem (BitVec.ofNat 32 calls.length) call).byteAt (calls ++ [call]) := by
  have room := slot_fits owns within
  have longer : (calls ++ [call]).length ≤ slots := by
    rw [List.length_append]
    exact within
  have all : ∀ queued ∈ calls ++ [call], queued.payload.length ≤ 0x380 := by
    intro queued member
    rcases List.mem_append.mp member with old | new
    · exact bounded queued old
    · rwa [List.mem_singleton.mp new]
  rw [injectPacketBody_eq room]
  have written := packetPatched_sees owns.sees within fits (freshNode calls.length call)
  have count := wordAt_packetPatched mem.byteAt calls.length (freshNode calls.length call) fits
    (show 8 + 4 ≤ 12 by omega)
  rw [held.count] at count
  cases size : calls.length with
  | zero =>
    obtain rfl := List.length_eq_zero_iff.mp size
    obtain ⟨channel, short, sees⟩ := linkNode_first written count (freshNode 0 call) (nodeTarget 0)
    refine ⟨sees.owns, (represents_first short fits).congr longer all sees.holds⟩
  | succ number =>
    rw [size] at written count room within
    have some : BitVec.ofNat 32 (number + 1) ≠ 0 := by
      intro none
      have value := congrArg BitVec.toNat none
      rw [BitVec.toNat_ofNat] at value
      simp only [slot] at room
      have zero : (0 : Word).toNat = 0 := rfl
      omega
    have nonempty : calls ≠ [] := by
      rintro rfl
      cases size
    have tail := wordAt_packetPatched mem.byteAt (number + 1) (freshNode (number + 1) call) fits
      (show 4 + 4 ≤ 12 by omega)
    rw [held.last nonempty, size] at tail
    have head := wordAt_packetPatched mem.byteAt (number + 1) (freshNode (number + 1) call) fits
      (show 0 + 4 ≤ 12 by omega)
    simp only [Nat.add_zero] at head
    rw [held.first nonempty] at head
    obtain ⟨channel, short, sees⟩ := linkNode_later written within (by rw [count]; exact some)
      (freshNode (number + 1) call) tail
    rw [head, count] at sees
    have next : BitVec.ofNat 32 (number + 1) + 1 = BitVec.ofNat 32 (number + 2) :=
      (BitVec.ofNat_add ..).symm
    rw [next] at sees
    exact ⟨sees.owns, (represents_later short held size bounded fits).congr longer all sees.holds⟩

end ZeeboLle.Device
