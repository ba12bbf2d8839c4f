import ZeeboLle.Device.Models
import ZeeboLle.Device.PeripheralBus
import ZeeboLle.L4.Vtlb
import ZeeboLle.System.Scheduler

/-! The bus fabric: how loads and stores of Core 0 reach the devices and memory. On the
interpreter a hook runs before each access and the access then goes to the memory behind
the address; the recompiler calls back for every access and never touches the engine's
hooks. The two classify addresses with lists of their own. -/
namespace ZeeboLle.System

open Paging Unicorn L4 Device

/-- The device models. The text of a UART line is kept until the line ends. -/
structure Devices where
  pbus : PeripheralBus
  vicC1 : VicState
  mddi : UnifiedMddi
  gpu : UnifiedAdreno130
  input : UnifiedInput
  uartBuffers : Nat → List Byte

/-- The engines of both cores share host memory, which the memory of Core 0 carries. -/
structure Fabric where
  devices : Devices
  core0 : Memory
  core1Pages : PageTable Prot Backing
  core1Ram : Nat → Byte
  vtlb : VtlbLut
  proccomm : ProcComm
  insns : Nat

def smemBase : Word := 0x01f00000
def smemSize : Nat := 0x200000
def msmCsrBase : Word := 0xc0100000
def msmVicBase : Word := 0xc0000000
def gptTimerBase : Word := 0xc5000000
def msmMddiBase : Word := 0xaa600000
def mddiSize : Word := 0x10000
def adreno130Base : Word := 0xa0000000
def adreno130Size : Word := 0x100000
def keypadBase : Word := 0xa9a10000
def keypadSize : Word := 0x10000
def uart1Base : Word := 0xa9a00000
def uart2Base : Word := 0xa9b00000
def uart3Base : Word := 0xa9c00000
def uartSize : Word := 0x10000

/-- `[base, base + size)`. -/
def inWindow (base size addr : Word) : Bool := base ≤ addr && addr < base + size

def isClock (addr : Word) : Bool := inWindow 0xc5400000 0x1000 addr
def isVic (addr : Word) : Bool := inWindow msmVicBase 0x1000 addr
def isGpt (addr : Word) : Bool := inWindow gptTimerBase 0x200 addr
def isMddi (addr : Word) : Bool := inWindow msmMddiBase mddiSize addr
def isAdreno (addr : Word) : Bool := inWindow adreno130Base adreno130Size addr
def isKeypad (addr : Word) : Bool := inWindow keypadBase keypadSize addr
def isUart (addr : Word) : Bool :=
  inWindow uart1Base uartSize addr || inWindow uart2Base uartSize addr ||
    inWindow uart3Base uartSize addr

/-- The upper bound is included. -/
def isDoorbell (addr : Word) : Bool := msmCsrBase + 0x400 ≤ addr && addr ≤ msmCsrBase + 0x440

/-- The number of the UART and its base; the third one stands for every other address. -/
def uartOf (addr : Word) : Nat × Word :=
  if inWindow uart1Base uartSize addr then (1, uart1Base)
  else if inWindow uart2Base uartSize addr then (2, uart2Base)
  else (3, uart3Base)

/-- The status register of a UART. The readers test one range over all three. -/
def isUartStatus (addr : Word) : Bool :=
  uart1Base ≤ addr && addr < uart3Base + uartSize && addr - (uartOf addr).2 = 0x8

def isCore0Peripheral (addr : Word) : Bool :=
  isClock addr || isVic addr || isGpt addr || isDoorbell addr || addr = smemBase ||
    addr = smemBase + 0x4 || isMddi addr || isAdreno addr || isUart addr || isKeypad addr

namespace Devices

/-- Printable characters and tabs are collected until a newline or 200 of them. -/
def uartPut (devices : Devices) (uart : Nat) (ch : Byte) : Devices :=
  let put (line : List Byte) : Devices :=
    { devices with uartBuffers := Function.update devices.uartBuffers uart line }
  if ch = 0x0a then put []
  else if ch = 0x0d then devices
  else if 0x20 ≤ ch ∨ ch = 0x09 then
    let line := devices.uartBuffers uart ++ [ch]
    if 200 ≤ line.length then put [] else put line
  else devices

def uartWrite (devices : Devices) (addr value : Word) : Devices :=
  let (uart, base) := uartOf addr
  if addr - base = 0xc ∨ addr - base = 0x0 then devices.uartPut uart (value.setWidth 8)
  else devices

/-- The value of a modelled register, and the devices after it was read. -/
def readRegister (devices : Devices) (addr : Word) : Option Word × Devices :=
  match devices.pbus.mmioRead .firmware addr with
  | (some value, pbus) => (some value, { devices with pbus })
  | (none, _) =>
    if isUartStatus addr then (some 0x000c, devices)
    else if isMddi addr then (some (devices.mddi.read (addr - msmMddiBase)), devices)
    else if isAdreno addr then (some (devices.gpu.read (addr - adreno130Base)), devices)
    else (none, devices)

end Devices

namespace Fabric

/-- The engine of Core 1, over the shared host memory. -/
def core1 (fabric : Fabric) : Memory := ⟨fabric.core1Pages, fabric.core1Ram, fabric.core0.host⟩

def withCore1 (fabric : Fabric) (mem : Memory) : Fabric :=
  { fabric with
    core1Pages := mem.pages
    core1Ram := mem.ram
    core0 := { fabric.core0 with host := mem.host } }

def withHost (fabric : Fabric) (host : HostPtr → Byte) : Fabric :=
  { fabric with core0 := { fabric.core0 with host } }

/-- Sets a bit of the word behind the status register of an interrupt controller; an
unreadable word counts as zero. -/
def latchStatus (mem : Memory) (line : Nat) : Memory :=
  let status := BitVec.ofNat 32 (leValue ((mem.ucMemRead msmVicBase.toNat 4).getD []))
  (mem.ucMemWrite msmVicBase.toNat (leBytes 4 (status ||| (1#32 <<< line)).toNat)).2

def pressKey (fabric : Fabric) (keyBit : Word) : Fabric :=
  { fabric with
    devices := { fabric.devices with input := fabric.devices.input.latch keyBit }
    core0 := latchStatus fabric.core0 28 }

def releaseKey (fabric : Fabric) (keyBit : Word) : Fabric :=
  { fabric with
    devices := { fabric.devices with input := fabric.devices.input.releaseKey keyBit } }

/-- The doorbell register an address names. -/
def doorbellLine (addr : Word) : Nat := (addr - (msmCsrBase + 0x400)).toNat / 4

def handlePeripheralWrite (fabric : Fabric) (addr value : Word) : Fabric :=
  let devices := fabric.devices
  match devices.pbus.mmioWrite .firmware addr value with
  | (true, pbus) => { fabric with devices := { devices with pbus } }
  | (false, _) =>
    if isDoorbell addr then fabric.withCore1 (latchStatus fabric.core1 (doorbellLine addr))
    else if addr = smemBase then
      fabric.withHost (fabric.proccomm.core0Issue value 0 0 fabric.core0.host)
    else if isMddi addr then
      { fabric with
        devices := { devices with mddi := devices.mddi.write (addr - msmMddiBase) value } }
    else if isAdreno addr then
      { fabric with
        devices := { devices with gpu := devices.gpu.write (addr - adreno130Base) value } }
    else if isUart addr then { fabric with devices := devices.uartWrite addr value }
    else if isKeypad addr then
      { fabric with
        devices := { devices with input := devices.input.write (addr - keypadBase) value } }
    else fabric

/-- What is not a modelled register is taken from the lookup table, always four bytes. -/
def handlePeripheralRead (fabric : Fabric) (addr : Word) (size : Nat) : Word × Fabric :=
  if size ≠ 4 ∧ size ≠ 2 ∧ size ≠ 1 then (0, fabric)
  else
    match fabric.devices.readRegister addr with
    | (some value, devices) => (value, { fabric with devices })
    | (none, _) =>
      (BitVec.ofNat 32 (leValue (fabric.vtlb.readU32 fabric.core0.host addr.toNat).2), fabric)

def clock (fabric : Fabric) : Word := BitVec.ofNat 32 (fabric.insns / 16 * 1000)

/-- Puts a value behind an address for the load that follows. -/
def inject (fabric : Fabric) (addr : Word) (size : Nat) (value : Word) : Fabric :=
  { fabric with core0 := (fabric.core0.ucMemWrite addr.toNat (leBytes size value.toNat)).2 }

def c0MemReadHook (fabric : Fabric) (addr : Word) (size : Nat) : Fabric :=
  if size ≠ 4 ∧ size ≠ 2 ∧ size ≠ 1 then fabric
  else if isClock addr then fabric.inject addr size fabric.clock
  else if isMddi addr || isAdreno addr || isVic addr || isGpt addr || isUartStatus addr then
    let (value, fabric) := fabric.handlePeripheralRead addr size
    fabric.inject addr size value
  else fabric

/-- Maps the missing page; a load from the keypad's window then finds its register there. -/
def c0UnmappedHook (fabric : Fabric) (load : Bool) (addr : Word) (size : Nat) : Fabric :=
  let mapped := { fabric with core0 := (fabric.core0.mapPage addr.toNat).2 }
  if load && isKeypad addr then
    mapped.inject addr size (fabric.devices.input.read (addr - keypadBase))
  else mapped

/-- The hook for one address, when its page is missing. -/
def demand (fabric : Fabric) (load : Bool) (addr : Word) (size : Nat) : Fabric :=
  if (fabric.core0.pages (addr.toNat / 0x1000)).isNone then fabric.c0UnmappedHook load addr size
  else fabric

/-- The page after the one an access starts in, when the access runs into it. -/
def nextPage (addr : Word) (size : Nat) : Option Word :=
  if addr.toNat % 0x1000 + size ≤ 0x1000 then none
  else some (BitVec.ofNat 32 ((addr.toNat / 0x1000 + 1) * 0x1000))

/-- Both pages of an access are brought in before it is made. -/
def faultIn (fabric : Fabric) (load : Bool) (addr : Word) (size : Nat) : Fabric :=
  let fabric := fabric.demand load addr size
  match nextPage addr size with
  | none => fabric
  | some next => fabric.demand load next size

/-- The byte addresses of a guest access wrap around. -/
def guestByte (addr : Word) (index : Nat) : Nat := (addr.toNat + index) % 0x100000000

/-- Every page of an access that is mapped permits it. -/
def permits (mem : Memory) (allowed : Prot → Bool) (addr : Word) (size : Nat) : Bool :=
  (List.range size).all fun index =>
    match mem.pages (guestByte addr index / 0x1000) with
    | none => true
    | some page => allowed page.prot

def guestBytes (mem : Memory) (addr : Word) (size : Nat) : List Byte :=
  (List.range size).map fun index => mem.byteAt (guestByte addr index)

/-- The cells a guest store writes, with their bytes. -/
def guestWrites (mem : Memory) (addr : Word) (bytes : List Byte) : List (Cell × Byte) :=
  bytes.zipIdx.filterMap fun (byte, index) =>
    (mem.cell (guestByte addr index)).map fun cell => (cell, byte)

/-- A load by the interpreter; none when the page does not permit it. -/
def ucLoad (fabric : Fabric) (size : Nat) (addr : Word) : Option Nat × Fabric :=
  let fabric := (fabric.c0MemReadHook addr size).faultIn true addr size
  if permits fabric.core0 Prot.read addr size then
    (some (leValue (guestBytes fabric.core0 addr size)), fabric)
  else (none, fabric)

/-- A store by the interpreter: the hook first, then the memory. -/
def ucStore (fabric : Fabric) (size : Nat) (addr : Word) (value : Nat) : Fabric :=
  let fabric := (fabric.handlePeripheralWrite addr (BitVec.ofNat 32 value)).faultIn false addr size
  if permits fabric.core0 Prot.write addr size then
    { fabric with
      core0 := fabric.core0.withContents
        (writeAll fabric.core0.contents (guestWrites fabric.core0 addr (leBytes size value))) }
  else fabric

/-- The bridge's `read8`, `read16` and `read32`: the table first, then the engine. What the
table delivered before it failed stays when the engine refuses as well. -/
def bridgeRead (size : Nat) (fabric : Fabric) (addr : Word) : Nat :=
  let (fromVtlb, bytes) := fabric.vtlb.read fabric.core0.host addr.toNat size
  if fromVtlb then leValue bytes
  else leValue ((fabric.core0.ucMemRead addr.toNat size).getD bytes)

/-- The bridge's writes go to both the table and the engine. -/
def bridgeWrite (size : Nat) (fabric : Fabric) (addr : Word) (value : Nat) : UcErr × Fabric :=
  let bytes := leBytes size value
  let (_, host) := fabric.vtlb.write fabric.core0.host addr.toNat bytes
  let (err, core0) := { fabric.core0 with host }.ucMemWrite addr.toNat bytes
  (err, { fabric with core0 })

def write8 (fabric : Fabric) (addr : Word) (value : Nat) : Fabric :=
  (bridgeWrite 1 fabric addr value).2

def write16 (fabric : Fabric) (addr : Word) (value : Nat) : Fabric :=
  (bridgeWrite 2 fabric addr value).2

/-- Only this one maps the page and tries again. -/
def write32 (fabric : Fabric) (addr : Word) (value : Nat) : Fabric :=
  match bridgeWrite 4 fabric addr value with
  | (.writeUnmapped, fabric) =>
    let core0 := (fabric.core0.mapPage addr.toNat).2
    { fabric with core0 := (core0.ucMemWrite addr.toNat (leBytes 4 value)).2 }
  | (_, fabric) => fabric

/-- `MemoryRead8`, `MemoryRead16` and `MemoryRead32`. -/
def memoryRead (size : Nat) (fabric : Fabric) (addr : Word) : Nat × Fabric :=
  if isCore0Peripheral addr then
    let (value, fabric) := fabric.handlePeripheralRead addr size
    (value.toNat % 0x100 ^ size, fabric)
  else (bridgeRead size fabric addr, fabric)

def memoryRead64 (fabric : Fabric) (addr : Word) : Nat × Fabric :=
  let (low, fabric) := memoryRead 4 fabric addr
  let (high, fabric) := memoryRead 4 fabric (addr + 4)
  (low + 0x100000000 * high, fabric)

def memoryWrite8 (fabric : Fabric) (addr : Word) (value : Nat) : Fabric :=
  if isCore0Peripheral addr then
    fabric.handlePeripheralWrite addr (BitVec.ofNat 32 (value % 0x100))
  else fabric.write8 addr value

def memoryWrite16 (fabric : Fabric) (addr : Word) (value : Nat) : Fabric :=
  if isCore0Peripheral addr then
    fabric.handlePeripheralWrite addr (BitVec.ofNat 32 (value % 0x10000))
  else fabric.write16 addr value

def memoryWrite32 (fabric : Fabric) (addr : Word) (value : Nat) : Fabric :=
  if isCore0Peripheral addr then fabric.handlePeripheralWrite addr (BitVec.ofNat 32 value)
  else fabric.write32 addr value

def memoryWrite64 (fabric : Fabric) (addr : Word) (value : Nat) : Fabric :=
  (fabric.memoryWrite32 addr (value % 0x100000000)).memoryWrite32 (addr + 4)
    (value / 0x100000000)

end Fabric

/-- The widths of guest accesses. -/
inductive Width where
  | byte | half | word | double
deriving DecidableEq, Repr

namespace Width

def bytes : Width → Nat
  | byte => 1
  | half => 2
  | word => 4
  | double => 8

end Width

namespace Fabric

/-- A load through the callbacks of the recompiler. -/
def jitLoad (fabric : Fabric) (addr : Word) : Width → Nat × Fabric
  | .byte => memoryRead 1 fabric addr
  | .half => memoryRead 2 fabric addr
  | .word => memoryRead 4 fabric addr
  | .double => fabric.memoryRead64 addr

def jitStore (fabric : Fabric) (addr : Word) (value : Nat) : Width → Fabric
  | .byte => fabric.memoryWrite8 addr value
  | .half => fabric.memoryWrite16 addr value
  | .word => fabric.memoryWrite32 addr value
  | .double => fabric.memoryWrite64 addr value

/-- The host buffers of shared memory and of the RAM pool. -/
def smemHost : HostPtr := 0x1000
def appsPoolHost : HostPtr := 0x201000

def appsRamPhysBase : Nat := 0x10000000
def appsRamPhysSize : Nat := 0x6000000

/-- The windows mapped as engine RAM, base and size. -/
def core0Windows : List (Nat × Nat) :=
  [(0xc0100000, 0x10000), (0xc0000000, 0x10000), (0xc5000000, 0x500000),
    (0xf0000000, 0x1000000), (0xb0000000, 0x2000000), (0xd0000000, 0x10000000), (0x0, 0x100000),
    (0xaa600000, 0x10000), (0xa0000000, 0x100000), (0xa9a10000, 0x10000), (0xa0a00000, 0x10000),
    (0xa9400000, 0x10000), (0xa9a00000, 0x10000), (0xa9b00000, 0x10000), (0xa9c00000, 0x10000),
    (0xff000000, 0x200000), (0x400000, 0x100000)]

def core1Windows : List (Nat × Nat) :=
  [(0xc0100000, 0x10000), (0xc0000000, 0x10000), (0xc5000000, 0x500000), (0x0, 0x800000),
    (0xa00000, 0x600000), (0x16e00000, 0xc60000), (0x20000000, 0x1000000),
    (0xf0000000, 0x1000000), (0xf4000000, 0x100000), (0xffff0000, 0x10000),
    (0xf9000000, 0x100000), (0xff000000, 0x100000), (0xb0000000, 0x1000000),
    (0xdf600000, 0x1000000), (0xa9a00000, 0x10000), (0xa9b00000, 0x10000), (0xa9c00000, 0x10000)]

/-- The pages of a list of windows and of host buffers, given as base, size and pointer. -/
def mappedPages (windows : List (Nat × Nat)) (buffers : List (Nat × Nat × HostPtr)) :
    PageTable Prot Backing := fun page =>
  match buffers.find? fun (base, size, _) => page ∈ pageSpan base size with
  | some (base, _, ptr) => some ⟨.all, .host (ptr + (page - base / 0x1000) * 0x1000)⟩
  | none =>
    if windows.any fun (base, size) => page ∈ pageSpan base size then some ⟨.all, .ram⟩ else none

/-- The bytes of shared memory after `setup_memory_maps`. -/
def smemInit (host : HostPtr → Byte) : HostPtr → Byte :=
  let zeroed := fun ptr => if smemHost ≤ ptr ∧ ptr < smemHost + smemSize then 0 else host ptr
  let host := hostWrite32 (hostWrite32 zeroed (smemHost + 0x14) 1) (smemHost + 0x100) 0x2b
  ProcComm.bind ⟨smemHost⟩ host

/-- The fabric as `init` leaves it. What the firmware images put into memory is arbitrary. -/
def boot (ram0 ram1 : Nat → Byte) (host : HostPtr → Byte) : Fabric where
  devices := ⟨.idle, .idle, .initial, .initial, .initial, fun _ => []⟩
  core0 :=
    { pages := mappedPages core0Windows [(smemBase.toNat, smemSize, smemHost),
        (appsRamPhysBase, appsRamPhysSize, appsPoolHost)]
      ram := ram0
      host := smemInit host }
  core1Pages := mappedPages core1Windows [(smemBase.toNat, smemSize, smemHost)]
  core1Ram := ram1
  vtlb := VtlbLut.empty.map appsRamPhysBase appsRamPhysSize appsPoolHost
  proccomm := ⟨smemHost⟩
  insns := 0

end Fabric

end ZeeboLle.System
