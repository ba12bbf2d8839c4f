import ZeeboLle.Device.InService
import ZeeboLle.Scheduling.Runs
import ZeeboLle.System.BackendReads

/-! The interrupt sources over whole runs: keys, doorbells and the timer, among guest
accesses and slice boundaries. A line reaches a core through the controller the boundary
delivers from. -/
namespace ZeeboLle.System

open Paging Unicorn L4 Device Scheduling

/-- What happens to the fabric. The cores at a boundary are as their slices left them.
Everything else the system does (kernel calls, Core 1, the modem, the screen) leaves any
fabric with the same two controllers. -/
inductive SourceEvent where
  | pressKey (keyBit : Word)
  | releaseKey (keyBit : Word)
  | load (width : Width) (addr : Word)
  | store (width : Width) (addr : Word) (value : Nat)
  | boundary (core0 : Core0) (core1 : Core1)
  | elsewhere (rest : Fabric)

namespace Fabric

/-- A load by Core 0; none when the interpreter's page does not permit it. -/
def load (backend : CoreBackend) (fabric : Fabric) (width : Width) (addr : Word) :
    Option Nat × Fabric :=
  match backend with
  | .unicorn => fabric.ucLoad width.bytes addr
  | .dynarmic =>
    let (value, fabric) := fabric.jitLoad addr width
    (some value, fabric)

def store (backend : CoreBackend) (fabric : Fabric) (width : Width) (addr : Word) (value : Nat) :
    Fabric :=
  match backend with
  | .unicorn => fabric.ucStore width.bytes addr value
  | .dynarmic => fabric.jitStore addr value width

/-- Between two slices: the quantum of virtual time and the delivery of interrupts. -/
def boundary (fabric : Fabric) (core0 : Core0) (core1 : Core1) : Fabric :=
  let machine : Machine := ⟨core0, core1, fabric.devices.pbus, fabric.devices.vicC1, 0⟩
  let machine := machine.tick.deliver
  { fabric with devices := { fabric.devices with pbus := machine.pbus, vicC1 := machine.vicC1 } }

def sourceStep (backend : CoreBackend) (fabric : Fabric) : SourceEvent → Fabric
  | .pressKey keyBit => fabric.pressKey keyBit
  | .releaseKey keyBit => fabric.releaseKey keyBit
  | .load width addr => (fabric.load backend width addr).2
  | .store width addr value => fabric.store backend width addr value
  | .boundary core0 core1 => fabric.boundary { core0 with backend } core1
  | .elsewhere rest =>
    { rest with
      devices := { rest.devices with
        pbus := fabric.devices.pbus
        vicC1 := fabric.devices.vicC1 } }

def sourceRun (backend : CoreBackend) (fabric : Fabric) (events : List SourceEvent) : Fabric :=
  events.foldl (sourceStep backend) fabric

def vicRawStatus0 : Word := msmVicBase + 0x10

def keysenseLine : Nat := 28

/-- Core 0 loads the raw status and finds the line pending. -/
def Shows (backend : CoreBackend) (fabric : Fabric) (line : Nat) : Prop :=
  ∃ value, (fabric.load backend .word vicRawStatus0).1 = some value ∧ value.testBit line = true

/-- The device writes a store makes, address and value; the recompiler makes two of a
doubleword. -/
def deviceWrites (backend : CoreBackend) (width : Width) (addr : Word) (value : Nat) :
    List (Word × Word) :=
  match backend, width with
  | .dynarmic, .double =>
    [(addr, BitVec.ofNat 32 (value % 0x100000000)), (addr + 4, BitVec.ofNat 32 (value / 0x100000000))]
  | _, _ => [(addr, BitVec.ofNat 32 (value % 0x100 ^ width.bytes))]

/-- The store acknowledges the line through INT_CLEAR0, or is the line's end of interrupt. -/
def Retires (backend : CoreBackend) (fabric : Fabric) (line : Nat) : SourceEvent → Prop
  | .store width addr value => ∃ write ∈ deviceWrites backend width addr value,
      (BusLayout.firmware.vicOffset write.1 = some BusLayout.intClear0 ∧
          write.2.getLsbD line = true) ∨
        (BusLayout.firmware.vicOffset write.1 = some BusLayout.irqVecRd ∧
          fabric.devices.pbus.vic.inServiceLine = some line)
  | _ => False

/-- The store rings a doorbell. -/
def Rings (backend : CoreBackend) (width : Width) (addr : Word) (value line : Nat) : Prop :=
  ∃ write ∈ deviceWrites backend width addr value,
    isDoorbell write.1 = true ∧ doorbellLine write.1 = line

/-- The timer matches at the coming boundary. -/
def Matches (fabric : Fabric) : Prop := fabric.devices.pbus.tickSlice.1 = true

end Fabric

/-- The timer matched at an earlier boundary. -/
def Matched (backend : CoreBackend) (start : Fabric) (events : List SourceEvent) : Prop :=
  ∃ early core0 core1 late, events = early ++ .boundary core0 core1 :: late ∧
    (start.sourceRun backend early).Matches

/-- Every source reaches the controller of the core it is meant for. -/
structure SourcesReach (backend : CoreBackend) (start : Fabric) (events : List SourceEvent) :
    Prop where
  key : ∀ before keyBit later after, events = before ++ .pressKey keyBit :: (later ++ after) →
    (∀ early event late, later = early ++ event :: late →
      ¬ (start.sourceRun backend (before ++ .pressKey keyBit :: early)).Retires backend
        Fabric.keysenseLine event) →
    (start.sourceRun backend (before ++ .pressKey keyBit :: later)).Shows backend Fabric.keysenseLine
  doorbell : ∀ before width addr value after line,
    events = before ++ .store width addr value :: after →
    Fabric.Rings backend width addr value line →
    (start.sourceRun backend (before ++ [.store width addr value])).devices.vicC1.pending.getLsbD
      line = true
  timer : ∀ before core0 core1 after, events = before ++ .boundary core0 core1 :: after →
    (start.sourceRun backend before).Matches →
    let devices := (start.sourceRun backend (before ++ [.boundary core0 core1])).devices
    devices.pbus.vic.pending.getLsbD gptVicLine = true ∧
      devices.vicC1.pending.getLsbD gptVicLine = true

/-- An access to the devices raises no line and leaves the controller of Core 1 alone. -/
structure Accessed (before after : Devices) : Prop where
  vicC1 : after.vicC1 = before.vicC1
  pending : ∀ line, after.pbus.vic.pending.getLsbD line = true →
    before.pbus.vic.pending.getLsbD line = true

namespace Accessed

theorem refl (devices : Devices) : Accessed devices devices := ⟨rfl, fun _ held => held⟩

theorem trans {first second third : Devices} (early : Accessed first second)
    (late : Accessed second third) : Accessed first third :=
  ⟨late.vicC1.trans early.vicC1, fun line held => early.pending line (late.pending line held)⟩

end Accessed

theorem writeReg_pending (vic : VicState) (offset value : Word) {line : Nat}
    (held : (vic.writeReg offset value).pending.getLsbD line = true) :
    vic.pending.getLsbD line = true := by
  unfold VicState.writeReg at held
  split at held
  · rw [VicState.ackMask_pending, Bool.and_eq_true] at held
    exact held.1
  · split at held
    · exact held
    · split at held
      · exact held
      · split at held
        · unfold VicState.eoiCurrent at held
          split at held
          · exact held
          · rw [BitVec.getLsbD_and, Bool.and_eq_true] at held
            exact held.1
        · exact held

theorem readReg_pending (vic : VicState) (offset : Word) :
    (vic.readReg offset).2.pending = vic.pending := by
  unfold VicState.readReg
  split
  · rfl
  · split
    · rfl
    · split
      · unfold VicState.vectorAndAck
        split
        · rfl
        · rfl
      · rfl

theorem mmioWrite_pending (pbus : PeripheralBus) (addr value : Word) {line : Nat}
    (held : (pbus.mmioWrite .firmware addr value).2.vic.pending.getLsbD line = true) :
    pbus.vic.pending.getLsbD line = true := by
  unfold PeripheralBus.mmioWrite at held
  split at held
  · exact writeReg_pending _ _ _ held
  · split at held
    · exact held
    · exact held

theorem mmioRead_pending (pbus : PeripheralBus) (addr : Word) :
    (pbus.mmioRead .firmware addr).2.vic.pending = pbus.vic.pending := by
  unfold PeripheralBus.mmioRead
  split
  · exact readReg_pending _ _
  · split
    · rfl
    · rfl

theorem accessed_readRegister (devices : Devices) (addr : Word) :
    Accessed devices (devices.readRegister addr).2 := by
  have kept := mmioRead_pending devices.pbus addr
  unfold Devices.readRegister
  split
  · rename_i read
    rw [read] at kept
    exact ⟨rfl, fun line held => by rwa [← kept]⟩
  · split
    · exact .refl devices
    · split
      · exact .refl devices
      · split
        · exact .refl devices
        · exact .refl devices

theorem accessed_uartWrite (devices : Devices) (addr value : Word) :
    Accessed devices (devices.uartWrite addr value) := by
  unfold Devices.uartWrite Devices.uartPut
  dsimp only
  split
  · split
    · exact ⟨rfl, fun _ held => held⟩
    · split
      · exact .refl devices
      · split
        · split
          · exact ⟨rfl, fun _ held => held⟩
          · exact ⟨rfl, fun _ held => held⟩
        · exact .refl devices
  · exact .refl devices

namespace Fabric

theorem accessed_peripheralRead (fabric : Fabric) (addr : Word) (size : Nat) :
    Accessed fabric.devices (fabric.handlePeripheralRead addr size).2.devices := by
  have register := accessed_readRegister fabric.devices addr
  unfold handlePeripheralRead
  split
  · exact .refl _
  · split
    · rename_i read
      rw [read] at register
      exact register
    · exact .refl _

theorem accessed_peripheralWrite (fabric : Fabric) (addr value : Word) :
    Accessed fabric.devices (fabric.handlePeripheralWrite addr value).devices := by
  unfold handlePeripheralWrite
  dsimp only
  split
  · rename_i write
    refine ⟨rfl, fun line held => mmioWrite_pending fabric.devices.pbus addr value ?_⟩
    rw [write]
    exact held
  · split
    · exact .refl _
    · split
      · exact .refl _
      · split
        · exact ⟨rfl, fun _ held => held⟩
        · split
          · exact ⟨rfl, fun _ held => held⟩
          · split
            · exact accessed_uartWrite fabric.devices addr value
            · split
              · exact ⟨rfl, fun _ held => held⟩
              · exact .refl _

theorem accessed_ucLoad (fabric : Fabric) (size : Nat) (addr : Word) :
    Accessed fabric.devices (fabric.ucLoad size addr).2.devices := by
  rw [ucLoad_eq]
  rw [faultIn_devices]
  unfold c0MemReadHook
  split
  · exact .refl _
  · split
    · exact .refl _
    · split
      · exact accessed_peripheralRead fabric addr size
      · exact .refl _

theorem accessed_memoryRead (size : Nat) (fabric : Fabric) (addr : Word) :
    Accessed fabric.devices (memoryRead size fabric addr).2.devices := by
  unfold memoryRead
  split
  · exact accessed_peripheralRead fabric addr size
  · exact .refl _

theorem accessed_load (backend : CoreBackend) (fabric : Fabric) (width : Width) (addr : Word) :
    Accessed fabric.devices (fabric.load backend width addr).2.devices := by
  cases backend with
  | unicorn => exact accessed_ucLoad fabric width.bytes addr
  | dynarmic =>
    cases width with
    | byte => exact accessed_memoryRead 1 fabric addr
    | half => exact accessed_memoryRead 2 fabric addr
    | word => exact accessed_memoryRead 4 fabric addr
    | double =>
      exact (accessed_memoryRead 4 fabric addr).trans
        (accessed_memoryRead 4 (memoryRead 4 fabric addr).2 (addr + 4))

theorem accessed_ucStore (fabric : Fabric) (size : Nat) (addr : Word) (value : Nat) :
    Accessed fabric.devices (fabric.ucStore size addr value).devices := by
  have hook := accessed_peripheralWrite fabric addr (BitVec.ofNat 32 value)
  rw [← faultIn_devices (fabric.handlePeripheralWrite addr _) false addr size] at hook
  unfold ucStore
  dsimp only
  split
  · exact hook
  · exact hook

theorem write32_devices (fabric : Fabric) (addr : Word) (value : Nat) :
    (fabric.write32 addr value).devices = fabric.devices := by
  have bridge : (bridgeWrite 4 fabric addr value).2.devices = fabric.devices := rfl
  unfold write32
  split
  · rename_i write
    rw [write] at bridge
    exact bridge
  · rename_i write
    rw [write] at bridge
    exact bridge

theorem accessed_memoryWrite32 (fabric : Fabric) (addr : Word) (value : Nat) :
    Accessed fabric.devices (fabric.memoryWrite32 addr value).devices := by
  unfold memoryWrite32
  split
  · exact accessed_peripheralWrite fabric addr _
  · rw [write32_devices]
    exact .refl _

theorem accessed_store (backend : CoreBackend) (fabric : Fabric) (width : Width) (addr : Word)
    (value : Nat) : Accessed fabric.devices (fabric.store backend width addr value).devices := by
  cases backend with
  | unicorn => exact accessed_ucStore fabric width.bytes addr value
  | dynarmic =>
    cases width with
    | byte =>
      change Accessed _ (fabric.memoryWrite8 addr value).devices
      unfold memoryWrite8
      split
      · exact accessed_peripheralWrite fabric addr _
      · exact .refl _
    | half =>
      change Accessed _ (fabric.memoryWrite16 addr value).devices
      unfold memoryWrite16
      split
      · exact accessed_peripheralWrite fabric addr _
      · exact .refl _
    | word => exact accessed_memoryWrite32 fabric addr value
    | double =>
      exact (accessed_memoryWrite32 fabric addr _).trans (accessed_memoryWrite32 _ (addr + 4) _)

theorem readRegister_rawStatus (devices : Devices) :
    devices.readRegister vicRawStatus0 = (some devices.pbus.vic.pending, devices) := by
  have decoded : BusLayout.firmware.vicOffset vicRawStatus0 = some 0x10 := by decide
  have read : devices.pbus.mmioRead .firmware vicRawStatus0 =
      (some devices.pbus.vic.pending, devices.pbus) := by
    rw [PeripheralBus.mmioRead, decoded]
    rfl
  rw [Devices.readRegister, read]

/-- A cell further into a page that is backed lies behind the same page. -/
theorem cell_withinPage {mem : Memory} {page : Page Prot Backing} {addr index : Nat}
    (found : mem.pages (addr / 0x1000) = some page) (inside : addr % 0x1000 + index < 0x1000)
    (bound : addr + index < 2 ^ 32) :
    mem.cell (addr + index) =
      some (match page.backing with
        | .ram => .ram (addr + index)
        | .host ptr => .host (ptr + (addr % 0x1000 + index))) := by
  have same : (addr + index) / 0x1000 = addr / 0x1000 := by omega
  have place : (addr + index) % 0x1000 = addr % 0x1000 + index := by omega
  rw [Memory.cell, if_pos (by omega), same, found, place]
  rfl

/-- A word within one page has cells of its own. -/
theorem settled_word {fabric : Fabric} {addr : Word} (value : Word)
    (inside : addr.toNat % 0x1000 + 4 ≤ 0x1000) (backed : fabric.core0.backed addr.toNat 4 = true) :
    fabric.settled 4 addr value = leBytes 4 value.toNat := by
  have full : (fabric.core0.cells addr.toNat 4).length = 4 := by simpa [Memory.backed] using backed
  refine map_writeAll ?_ (by rw [full, length_leBytes])
  have here := (Memory.isSome_cell.mp (Memory.backed_iff.mp backed 0 (by omega))).2
  obtain ⟨page, found⟩ := Option.isSome_iff_exists.mp here
  rw [Nat.add_zero] at found
  have bound := addr.isLt
  have cell := fun index (below : index < 4) =>
    cell_withinPage found (by omega : addr.toNat % 0x1000 + index < 0x1000) (by omega)
  rw [Memory.cells, reach_eq_map cell]
  refine List.Nodup.map_on ?_ List.nodup_range
  intro left _ right _ equal
  cases kind : page.backing with
  | ram =>
    rw [kind] at equal
    have sums : addr.toNat + left = addr.toNat + right := Cell.ram.inj equal
    omega
  | host ptr =>
    rw [kind] at equal
    have sums := Nat.add_left_cancel (Cell.host.inj equal)
    omega

/-- A page mapped for a load holds zeros. -/
theorem behind_missing {fabric : Fabric} {addr : Word} (other : isKeypad addr = false)
    (inside : addr.toNat % 0x1000 + 4 ≤ 0x1000)
    (missing : fabric.core0.pages (addr.toNat / 0x1000) = none) :
    leValue (fabric.behind 4 addr) = 0 := by
  have brought : (fabric.faultIn true addr 4).core0 = (fabric.core0.mapPage addr.toNat).2 := by
    rw [faultIn, nextPage, if_pos inside, demand, missing]
    simp only [Option.isNone_none, if_true, c0UnmappedHook, other, Bool.and_false,
      Bool.false_eq_true, if_false]
  have bound := addr.isLt
  have zero : ∀ index, index < 4 →
      (fabric.core0.mapPage addr.toNat).2.byteAt (guestByte addr index) = 0 := by
    intro index below
    have page : (addr.toNat + index) / 0x1000 = addr.toNat / 0x1000 := by omega
    rw [Memory.byteAt_mapPage, Memory.byteAt, Memory.cell, guestByte, Nat.mod_eq_of_lt (by omega),
      page, missing, if_pos (by omega)]
    rfl
  rw [behind, brought, guestBytes]
  simp [List.range_succ, zero, leValue]

/-- A load of the raw status shows only lines the controller has pending. -/
theorem Shows.pending {backend : CoreBackend} {fabric : Fabric} {line : Nat}
    (shows : fabric.Shows backend line) :
    fabric.devices.pbus.vic.pending.getLsbD line = true := by
  have read := readRegister_rawStatus fabric.devices
  have whole : leValue (leBytes 4 fabric.devices.pbus.vic.pending.toNat) =
      fabric.devices.pbus.vic.pending.toNat := by
    rw [leValue_leBytes]
    exact Nat.mod_eq_of_lt fabric.devices.pbus.vic.pending.isLt
  obtain ⟨value, found, shown⟩ := shows
  cases backend with
  | dynarmic =>
    change some (memoryRead 4 fabric vicRawStatus0).1 = some value at found
    rw [memoryRead_register (.inr (.inr rfl)) read, whole] at found
    rwa [← Option.some.inj found] at shown
  | unicorn =>
    change (fabric.ucLoad 4 vicRawStatus0).1 = some value at found
    rw [(ucLoad_register (.inr (.inr rfl)) read).1] at found
    split at found
    · cases backed : fabric.core0.backed vicRawStatus0.toNat 4 with
      | true =>
        rw [backed, if_pos rfl, settled_word _ (by decide) backed, whole] at found
        rwa [← Option.some.inj found] at shown
      | false =>
        have missing : fabric.core0.pages (vicRawStatus0.toNat / 0x1000) = none := by
          by_contra mapped
          refine absurd (Memory.backed_iff.mpr fun index below => ?_) (Bool.eq_false_iff.mp backed)
          have place : vicRawStatus0.toNat + index = 0xc0000010 + index := rfl
          have page : (0xc0000010 + index) / 0x1000 = vicRawStatus0.toNat / 0x1000 := by
            change _ = 0xc0000
            omega
          refine Memory.isSome_cell.mpr ⟨by omega, ?_⟩
          rw [place, page]
          exact Option.isSome_iff_ne_none.mpr mapped
        rw [backed, if_neg Bool.false_ne_true, behind_missing (by decide) (by decide) missing] at found
        rw [← Option.some.inj found, Nat.zero_testBit] at shown
        cases shown
    · cases found

theorem deliver_pending (core : Core0) (vic : VicState) :
    (core.deliver vic).2.2.pending = vic.pending := by
  unfold Core0.deliver vicDeliverNext
  split
  · dsimp only
    split
    · rfl
    · split
      · rfl
      · rfl
  · rfl

theorem tickSlice_vic (pbus : PeripheralBus) : pbus.tickSlice.2.vic =
    if pbus.tickSlice.1 then pbus.vic.raiseLine gptVicLine else pbus.vic := by
  unfold PeripheralBus.tickSlice
  split
  · rfl
  · rfl

/-- Delivery takes no line off a controller, so only the match changes what is pending. -/
theorem boundary_pending (fabric : Fabric) (core0 : Core0) (core1 : Core1) :
    (fabric.boundary core0 core1).devices.pbus.vic.pending = (if fabric.devices.pbus.tickSlice.1 then
        fabric.devices.pbus.vic.raiseLine gptVicLine else fabric.devices.pbus.vic).pending := by
  rw [← tickSlice_vic]
  exact deliver_pending core0 _

theorem boundary_vicC1 (fabric : Fabric) (core0 : Core0) (core1 : Core1) :
    (fabric.boundary core0 core1).devices.vicC1 = if fabric.devices.pbus.tickSlice.1 then
        fabric.devices.vicC1.raiseLine gptVicLine else fabric.devices.vicC1 := rfl

end Fabric

theorem getLsbD_raiseTimer (vic : VicState) (line : Nat) :
    (vic.raiseLine gptVicLine).pending.getLsbD line =
      (vic.pending.getLsbD line || decide (line = gptVicLine)) := by
  have small : gptVicLine < 32 := by decide
  rw [VicState.raiseLine, if_pos small, BitVec.getLsbD_or, getLsbD_line small]

section Runs

variable {backend : CoreBackend} {start : Fabric} {events : List SourceEvent} {event : SourceEvent}

theorem sourceRun_snoc (backend : CoreBackend) (start : Fabric) (events : List SourceEvent)
    (event : SourceEvent) : start.sourceRun backend (events ++ [event]) =
      (start.sourceRun backend events).sourceStep backend event := by
  simp [Fabric.sourceRun]

theorem matched_snoc : Matched backend start (events ++ [event]) ↔ Matched backend start events ∨
    (∃ core0 core1, event = .boundary core0 core1) ∧ (start.sourceRun backend events).Matches := by
  constructor
  · rintro ⟨early, core0, core1, late, split, fires⟩
    rcases snoc_eq_iff.mp split with ⟨rfl, same, _⟩ | ⟨rest, _, found⟩
    · exact .inr ⟨⟨core0, core1, same⟩, fires⟩
    · exact .inl ⟨early, core0, core1, rest, found, fires⟩
  · rintro (⟨early, core0, core1, rest, found, fires⟩ | ⟨⟨core0, core1, same⟩, fires⟩)
    · exact ⟨early, core0, core1, rest ++ [event], snoc_eq_iff.mpr (.inr ⟨rest, rfl, found⟩), fires⟩
    · exact ⟨events, core0, core1, [], by rw [same], fires⟩

/-- The lines the controllers hold after a run: the timer's and no other, in the one of
Core 1 since the first match. -/
structure Latched (backend : CoreBackend) (start : Fabric) (events : List SourceEvent) : Prop where
  core0 : ∀ line,
    (start.sourceRun backend events).devices.pbus.vic.pending.getLsbD line = true → line = gptVicLine
  core1 : ∀ line, (start.sourceRun backend events).devices.vicC1.pending.getLsbD line = true ↔
    line = gptVicLine ∧ Matched backend start events

theorem Latched.accessed (latched : Latched backend start events)
    (quiet : ∀ core0 core1, event ≠ .boundary core0 core1)
    (access : Accessed (start.sourceRun backend events).devices
      ((start.sourceRun backend events).sourceStep backend event).devices) :
    Latched backend start (events ++ [event]) := by
  have same : Matched backend start (events ++ [event]) ↔ Matched backend start events := by
    rw [matched_snoc]
    refine or_iff_left ?_
    rintro ⟨⟨core0, core1, boundary⟩, _⟩
    exact quiet core0 core1 boundary
  constructor
  · intro line held
    rw [sourceRun_snoc] at held
    exact latched.core0 line (access.pending line held)
  · intro line
    rw [sourceRun_snoc, access.vicC1, same]
    exact latched.core1 line

theorem Latched.boundary (latched : Latched backend start events) (core0 : Core0) (core1 : Core1) :
    Latched backend start (events ++ [.boundary core0 core1]) := by
  have raised : Matched backend start (events ++ [.boundary core0 core1]) ↔
      Matched backend start events ∨ (start.sourceRun backend events).Matches := by
    rw [matched_snoc]
    exact or_congr_right (and_iff_right ⟨core0, core1, rfl⟩)
  constructor
  · intro line held
    rw [sourceRun_snoc, Fabric.sourceStep, Fabric.boundary_pending] at held
    split at held
    · rw [getLsbD_raiseTimer, Bool.or_eq_true, decide_eq_true_eq] at held
      exact held.elim (latched.core0 line) id
    · exact latched.core0 line held
  · intro line
    rw [sourceRun_snoc, Fabric.sourceStep, Fabric.boundary_vicC1, raised, Fabric.Matches]
    split
    · rename_i fires
      rw [getLsbD_raiseTimer, Bool.or_eq_true, decide_eq_true_eq, latched.core1]
      simp only [fires, or_true, and_true]
      exact or_iff_right_of_imp And.left
    · rename_i still
      rw [latched.core1, or_iff_left still]

theorem Latched.step (latched : Latched backend start events) (event : SourceEvent) :
    Latched backend start (events ++ [event]) := by
  cases event with
  | boundary core0 core1 => exact latched.boundary core0 core1
  | pressKey keyBit => exact latched.accessed (fun _ _ => SourceEvent.noConfusion) ⟨rfl, fun _ => id⟩
  | releaseKey keyBit =>
    exact latched.accessed (fun _ _ => SourceEvent.noConfusion) ⟨rfl, fun _ => id⟩
  | load width addr =>
    exact latched.accessed (fun _ _ => SourceEvent.noConfusion) (Fabric.accessed_load _ _ _ _)
  | store width addr value =>
    exact latched.accessed (fun _ _ => SourceEvent.noConfusion) (Fabric.accessed_store _ _ _ _ _)
  | elsewhere rest =>
    exact latched.accessed (fun _ _ => SourceEvent.noConfusion) ⟨rfl, fun _ => id⟩

theorem latched_run (backend : CoreBackend) (ram0 ram1 : Nat → Byte) (host : HostPtr → Byte)
    (events : List SourceEvent) : Latched backend (Fabric.boot ram0 ram1 host) events := by
  induction events using List.reverseRecOn with
  | nil =>
    have idle : ∀ line, VicState.idle.pending.getLsbD line = false := fun line => by
      simp [VicState.idle]
    refine ⟨fun line held => ?_, fun line => ?_⟩
    · exact absurd held (Bool.eq_false_iff.mp (idle line))
    · refine iff_of_false (Bool.eq_false_iff.mp (idle line)) ?_
      rintro ⟨_, early, core0, core1, late, split, _⟩
      simp at split
  | append_singleton events event ih => exact ih.step event

/-- A match is pending in both controllers. -/
theorem boundary_matched (core0 : Core0) (core1 : Core1)
    (fires : (start.sourceRun backend events).Matches) :
    let devices := (start.sourceRun backend (events ++ [.boundary core0 core1])).devices
    devices.pbus.vic.pending.getLsbD gptVicLine = true ∧
      devices.vicC1.pending.getLsbD gptVicLine = true := by
  rw [Fabric.Matches] at fires
  dsimp only
  rw [sourceRun_snoc, Fabric.sourceStep, Fabric.boundary_pending, Fabric.boundary_vicC1]
  rw [if_pos fires, if_pos fires, getLsbD_raiseTimer, getLsbD_raiseTimer]
  simp

end Runs

/-- The sources reach their controllers exactly in the runs without a key and without a
doorbell other than the timer's own line after a match: keys and doorbells are latched in
the memory behind the windows, which neither the read hook nor the delivery looks at. -/
theorem sourcesReach_iff (backend : CoreBackend) (ram0 ram1 : Nat → Byte) (host : HostPtr → Byte)
    (events : List SourceEvent) :
    SourcesReach backend (Fabric.boot ram0 ram1 host) events ↔
      (∀ keyBit, .pressKey keyBit ∉ events) ∧
        ∀ before width addr value after line, events = before ++ .store width addr value :: after →
          Fabric.Rings backend width addr value line →
          line = gptVicLine ∧ Matched backend (Fabric.boot ram0 ram1 host) before := by
  have unchanged : ∀ before width addr value,
      ((Fabric.boot ram0 ram1 host).sourceRun backend
        (before ++ [.store width addr value])).devices.vicC1 =
        ((Fabric.boot ram0 ram1 host).sourceRun backend before).devices.vicC1 := by
    intro before width addr value
    rw [sourceRun_snoc]
    exact (Fabric.accessed_store backend _ width addr value).vicC1
  constructor
  · intro reach
    constructor
    · intro keyBit member
      obtain ⟨before, after, split⟩ := List.append_of_mem member
      have shows := reach.key before keyBit [] after split (fun early event late empty => by
        simp at empty)
      have line := (latched_run backend ram0 ram1 host _).core0 _ shows.pending
      exact absurd line (by decide)
    · intro before width addr value after line split rings
      have held := reach.doorbell before width addr value after line split rings
      rw [unchanged] at held
      exact ((latched_run backend ram0 ram1 host before).core1 line).mp held
  · rintro ⟨keyless, ringless⟩
    refine ⟨?_, ?_, ?_⟩
    · intro before keyBit later after split
      exact absurd (by rw [split]; simp) (keyless keyBit)
    · intro before width addr value after line split rings
      rw [unchanged]
      exact ((latched_run backend ram0 ram1 host before).core1 line).mpr
        (ringless before width addr value after line split rings)
    · intro before core0 core1 after split fires
      exact boundary_matched core0 core1 fires

/-- A key pressed right after boot is not seen by the guest. -/
theorem not_sourcesReach_pressKey :
    ¬ SourcesReach .unicorn (Fabric.boot (fun _ => 0) (fun _ => 0) fun _ => 0) [.pressKey 1] := by
  intro reach
  have shows := reach.key [] 1 [] [] rfl (fun early event late empty => by simp at empty)
  have line := (latched_run .unicorn (fun _ => 0) (fun _ => 0) (fun _ => 0) [.pressKey 1]).core0 _
    shows.pending
  exact absurd line (by decide)

end ZeeboLle.System
