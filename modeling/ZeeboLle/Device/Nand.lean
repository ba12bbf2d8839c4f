import ZeeboLle.Unicorn.View

/-! The flash controller backed by a dump, and the data mover that runs descriptor lists
between guest memory and the controller's registers. The page buffer is drained through one
address with a cursor of its own. -/
namespace ZeeboLle.Device

open Paging Unicorn

def nandBase : Word := 0xa0a00000
def rFlashCmd : Word := 0x0
def rAddr0 : Word := 0x4
def rAddr1 : Word := 0x8
def rExecCmd : Word := 0x10
def rFlashStatus : Word := 0x14
def rBufferStatus : Word := 0x18
def rReadId : Word := 0x40
def rReadStatus : Word := 0x44
def rConfigStatus : Word := 0x60
def rFlashBuffer : Word := 0x100

def cmdFetchId : Word := 0xb
def cmdPageRead : Word := 0x32
def cmdPageReadEcc : Word := 0x33
def cmdPageReadAll : Word := 0x34

def fsReady : Word := 0x40
def fsOpErr : Word := 0x10

def pageData : Nat := 2048
def pageFull : Nat := 2112

/-- Registers that were never written read as zero. The buffer has `pageFull` bytes. -/
structure NandController where
  nandId : Word
  status : Word
  lastCmd : Word
  idLatched : Word
  dataBlob : List Byte
  buffer : Nat → Byte
  reg : Word → Word

namespace NandController

/-- A controller over a dump, with the configuration the boot code expects. -/
def initial (dataBlob : List Byte) : NandController where
  nandId := 0x5580b1ad
  status := fsReady
  lastCmd := 0
  idLatched := 0
  dataBlob
  buffer := fun _ => 0
  reg := Function.update (Function.update (fun _ => 0) 0x20 0xa25400c0) 0x24 0x0004745e

def bufferByte (nand : NandController) (index : Nat) : Byte :=
  if index < pageFull then nand.buffer index else 0

/-- Four bytes from an index; what lies past the end reads as zero. -/
def bufferWord (nand : NandController) (index : Nat) : Word :=
  [3, 2, 1, 0].foldl (fun value back => value <<< 8 ||| (nand.bufferByte (index + back)).setWidth 32) 0

/-- The window of the page buffer. -/
def inBuffer (off : Word) : Bool := off ≥ rFlashBuffer && off < rFlashBuffer + 2112

/-- The size of the access is ignored. -/
def read (nand : NandController) (off : Word) : Word :=
  if off = rFlashStatus || off = rReadStatus then nand.status
  else if off = rBufferStatus then 0
  else if off = rReadId then nand.idLatched
  else if off = rConfigStatus then 1
  else if inBuffer off then nand.bufferWord (off - rFlashBuffer).toNat
  else nand.reg off

/-- The page that the address registers name. -/
def decodePage (addr0 addr1 : Word) : Word :=
  if addr0 ≥ 0x10000 then addr0 >>> 16 ||| (addr1 &&& 0xff) <<< 8 else addr0

/-- The bytes of a page in a dump. -/
def imagePage (dataBlob : List Byte) (page : Nat) : List Byte :=
  (dataBlob.drop (page * pageData)).take pageData

/-- A page past the end of the dump is an error; unknown commands leave the flash ready. -/
def execute (nand : NandController) (cmd : Word) : NandController :=
  if cmd = cmdFetchId then { nand with idLatched := nand.nandId, status := fsReady }
  else if cmd = cmdPageRead || cmd = cmdPageReadEcc || cmd = cmdPageReadAll then
    let page := (decodePage (nand.reg rAddr0) (nand.reg rAddr1)).toNat
    if page < nand.dataBlob.length / pageData then
      { nand with
        buffer := patch nand.buffer 0 (imagePage nand.dataBlob page)
        status := fsReady }
    else { nand with status := fsOpErr }
  else { nand with status := fsReady }

/-- A store into the page buffer, as many bytes as the access has. -/
def storeBuffer (nand : NandController) (index : Nat) (val : Word) (size : Nat) : NandController :=
  { nand with
    buffer := patch nand.buffer index ((leBytes (min size 4) val.toNat).take (pageFull - index)) }

def write (nand : NandController) (off val : Word) (size : Nat) : NandController :=
  let nand := { nand with reg := Function.update nand.reg off val }
  if off = rFlashCmd then { nand with lastCmd := val &&& 0xff }
  else if off = rExecCmd then nand.execute nand.lastCmd
  else if inBuffer off then nand.storeBuffer (off - rFlashBuffer).toNat val size
  else nand

end NandController

def nandFlashBuffer : Word := nandBase + 0x100
def cmdPtrLp : Word := 0x80000000
def cmdLc : Word := 0x80000000
def dmovRsltDone : Word := 0x80000002
def dmovNandChan : Word := 3

structure DmovModel where
  mem : Memory
  nand : NandController
  execCount : Word
  bufCursor : Nat
  lastChan : Word

namespace DmovModel

def isNand (address : Word) : Bool := address ≥ nandBase && address < nandBase + 0x400

def ram32 (dmov : DmovModel) (address : Word) : Word := loadWord dmov.mem address.toNat

/-- The page buffer or a register into memory. -/
def fromNand (dmov : DmovModel) (src dst ln : Word) : DmovModel :=
  let length := min ln.toNat pageData
  if src = nandFlashBuffer then
    let bytes := (List.range length).map fun index =>
      dmov.nand.bufferByte ((dmov.bufCursor + index) % pageData)
    { dmov with
      mem := if bytes.isEmpty then dmov.mem else writeBytes dmov.mem dst.toNat bytes
      bufCursor := (dmov.bufCursor + length) % pageData }
  else { dmov with mem := writeBytes dmov.mem dst.toNat (wordBytes (dmov.nand.read (src - nandBase))) }

/-- Words of memory into consecutive registers, up to the end of the window. -/
def writeRegs (dmov : DmovModel) (src off : Word) : List Word → NandController → NandController
  | [], nand => nand
  | index :: rest, nand =>
    let nand := nand.write (off + index) (dmov.ram32 (src + index)) 4
    if off + index ≥ 0x400 then nand else dmov.writeRegs src off rest nand

/-- Memory into the page buffer, four registers at once, or one register. -/
def toNand (dmov : DmovModel) (src dst ln : Word) : DmovModel :=
  let length := min ln.toNat pageData
  let off := dst - nandBase
  if dst = nandFlashBuffer then
    { dmov with
      nand := ((List.range ((length + 3) / 4)).map fun index => BitVec.ofNat 32 (4 * index)).foldl
        (fun nand index => nand.write (off + index) (dmov.ram32 (src + index)) 4) dmov.nand }
  else if ln = 16 then
    if dst &&& ~~~3#32 = dst then { dmov with nand := dmov.writeRegs src off [0, 4, 8, 12] dmov.nand }
    else dmov
  else
    { dmov with
      nand := dmov.nand.write off (dmov.ram32 src) (min ln.toNat 4)
      bufCursor := if dst = nandBase + 0x10 then 0 else dmov.bufCursor }

/-- At most a page of memory into memory, if all of the source is mapped. -/
def ramToRam (dmov : DmovModel) (src dst ln : Word) : DmovModel :=
  let count := min ln.toNat 0x1000
  match dmov.mem.ucMemRead src.toNat count with
  | some bytes => if count = 0 then dmov else { dmov with mem := writeBytes dmov.mem dst.toNat bytes }
  | none => dmov

/-- The command word decides nothing here. -/
def execDescriptor (dmov : DmovModel) (src dst ln : Word) : DmovModel :=
  if isNand src then dmov.fromNand src dst ln
  else if isNand dst then dmov.toNand src dst ln
  else dmov.ramToRam src dst ln

/-- At most the given number of descriptors; the one marked last ends the list. -/
def runCmdlist (dmov : DmovModel) (base : Word) : Nat → DmovModel
  | 0 => dmov
  | fuel + 1 =>
    let cmd := dmov.ram32 base
    let dmov := dmov.execDescriptor (dmov.ram32 (base + 4)) (dmov.ram32 (base + 8))
      (dmov.ram32 (base + 12))
    if cmd &&& cmdLc ≠ 0 then dmov else dmov.runCmdlist (base + 16) fuel

/-- At most the given number of entries of the pointer list. -/
def runPtrlist (dmov : DmovModel) (pptr : Word) : Nat → DmovModel
  | 0 => dmov
  | fuel + 1 =>
    let entry := dmov.ram32 pptr
    if entry = 0 then dmov
    else
      let dmov := dmov.runCmdlist ((entry &&& 0x7fffffff) <<< 3) 64
      if entry &&& cmdPtrLp ≠ 0 then dmov else dmov.runPtrlist (pptr + 4) fuel

def execCmdptr (dmov : DmovModel) (regval : Word) : Word × DmovModel :=
  let dmov := { dmov with execCount := dmov.execCount + 1 }
  let dmov := dmov.runPtrlist ((regval &&& 0x7fffffff) <<< 3) 16
  (dmovRsltDone, { dmov with lastChan := dmovNandChan })

end DmovModel

structure Descriptor where
  cmd : Word
  src : Word
  dst : Word
  len : Word
deriving DecidableEq

def Descriptor.words (descriptor : Descriptor) : List Word :=
  [descriptor.cmd, descriptor.src, descriptor.dst, descriptor.len]

namespace DmovModel

def ioArea : Word := 0x00400000
def clArea : Word := 0x00401000
def ptrArea : Word := 0x00402000

/-- The values the descriptors move into the registers. -/
def ioWords (page : Word) : List Word :=
  [0x33, page <<< 16, (page >>> 16) &&& 0xff, 4, 0xa25400c0, 0x0004745e, 1, 0x203, 0]

/-- Command and address, configuration, execution, status, and four quarters of the page. -/
def readDescriptors (dest : Word) : List Descriptor :=
  [⟨5 <<< 7, ioArea, nandBase, 16⟩,
    ⟨0, ioArea + 0x10, nandBase + 0x20, 8⟩,
    ⟨0, ioArea + 0x18, nandBase + 0x10, 4⟩,
    ⟨4 <<< 3, nandBase + 0x14, ioArea + 0x24, 8⟩,
    ⟨0, nandFlashBuffer, dest, 512⟩,
    ⟨0, nandFlashBuffer, dest + 512, 512⟩,
    ⟨0, nandFlashBuffer, dest + 1024, 512⟩,
    ⟨cmdLc, nandFlashBuffer, dest + 1536, 512⟩]

/-- Words one after another, each with a store of its own. -/
def wram (mem : Memory) (address : Nat) : List Word → Memory
  | [] => mem
  | word :: rest => wram (writeBytes mem address (wordBytes word)) (address + 4) rest

/-- Descriptors one after another, each stored as a whole. -/
def wdesc (mem : Memory) (address : Nat) : List Descriptor → Memory
  | [] => mem
  | descriptor :: rest =>
    wdesc (writeBytes mem address (descriptor.words.flatMap wordBytes)) (address + 16) rest

/-- `dmov_read_page`, the same in both tools that read a partition. -/
def dmovReadPage (dmov : DmovModel) (page dest : Word) : DmovModel :=
  let mem := wram dmov.mem ioArea.toNat (ioWords page)
  let mem := wdesc mem clArea.toNat (readDescriptors dest)
  let mem := wram mem ptrArea.toNat [clArea >>> 3 ||| cmdPtrLp]
  (execCmdptr { dmov with mem } (ptrArea >>> 3 ||| cmdPtrLp)).2

end DmovModel

end ZeeboLle.Device
