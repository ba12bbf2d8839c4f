import ZeeboLle.Unicorn.Blocks

/-! The reference that the flash controller and the data mover were ported from, with its unbounded
integers, its dictionary of registers and its exceptions. A call that an exception ends is `none`. -/
namespace ZeeboLle.Device.Reference

open Paging Unicorn

def nandBase : Nat := 0xa0a00000
def rFlashCmd : Nat := 0x0000
def rAddr0 : Nat := 0x0004
def rAddr1 : Nat := 0x0008
def rExecCmd : Nat := 0x0010
def rFlashStatus : Nat := 0x0014
def rBufferStatus : Nat := 0x0018
def rReadId : Nat := 0x0040
def rReadStatus : Nat := 0x0044
def rConfigStatus : Nat := 0x0060
def rFlashBuffer : Nat := 0x0100

def cmdSoftReset : Nat := 0x01
def cmdPageRead : Nat := 0x32
def cmdPageReadEcc : Nat := 0x33
def cmdPageReadAll : Nat := 0x34
def cmdFetchId : Nat := 0x0b
def cmdStatus : Nat := 0x0c
def cmdReset : Nat := 0x0d

def fsOpErr : Nat := 1 <<< 4
def fsOk : Nat := 1 <<< 6

def pageData : Nat := 2048
def pageSpare : Nat := 64
def pageFull : Nat := pageData + pageSpare

/-- The page count comes from the spare image where there is one, else from the data image. -/
structure NandController where
  dataBlob : List Byte
  blob : List Byte
  stride : Nat
  nandId : Nat
  reg : Nat → Option Nat
  buffer : List Byte
  status : Nat
  lastCmd : Nat
  idLatched : Nat

namespace NandController

def initial (dataBlob : List Byte) (spare : Option (List Byte)) (nandId : Nat) : NandController where
  dataBlob
  blob := spare.getD dataBlob
  stride := if spare.isSome then pageFull else pageData
  nandId
  reg := Function.update (Function.update (fun _ => none) 0x20 (some 0xa25400c0)) 0x24 (some 0x0004745e)
  buffer := List.replicate pageFull 0
  status := fsOk
  lastCmd := 0
  idLatched := 0

/-- `_page_bytes`. -/
def pageBytes (nand : NandController) (page : Nat) : List Byte :=
  (nand.dataBlob.drop (page * pageData)).take pageData

/-- The size is ignored; a word that does not end inside the buffer reads as zero. -/
def read (nand : NandController) (off : Nat) : Nat :=
  if off = rFlashStatus then nand.status
  else if off = rBufferStatus then 0
  else if off = rReadId then nand.idLatched
  else if off = rReadStatus then nand.status
  else if off = rConfigStatus then 1
  else if rFlashBuffer ≤ off ∧ off < rFlashBuffer + pageFull then
    let i := off - rFlashBuffer
    if i + 4 ≤ nand.buffer.length then fieldAt nand.buffer i 4 else 0
  else (nand.reg off).getD 0

/-- `_execute`. -/
def execute (nand : NandController) : NandController :=
  let cmd := nand.lastCmd
  if cmd = cmdFetchId then { nand with idLatched := nand.nandId, status := fsOk }
  else if cmd = cmdPageRead ∨ cmd = cmdPageReadEcc ∨ cmd = cmdPageReadAll then
    let addr0 := (nand.reg rAddr0).getD 0
    let addr1 := (nand.reg rAddr1).getD 0
    let page := if addr0 ≥ 0x10000 then addr0 >>> 16 ||| (addr1 &&& 0xff) <<< 8 else addr0
    let npages := nand.blob.length / nand.stride
    if page < npages then
      let pg := nand.pageBytes page
      { nand with buffer := pg ++ nand.buffer.drop pg.length, status := fsOk }
    else { nand with status := fsOpErr }
  else if cmd = cmdSoftReset ∨ cmd = cmdReset then { nand with status := fsOk }
  else if cmd = cmdStatus then { nand with status := fsOk }
  else { nand with status := fsOk }

/-- `struct.pack_into` of a word; an error if it does not end inside the buffer. -/
def packInto (buffer : List Byte) (i val : Nat) : Option (List Byte) :=
  if i + 4 ≤ buffer.length then some (buffer.take i ++ (leBytes 4 val ++ buffer.drop (i + 4))) else none

/-- Whether the call returns, and the state it leaves: the register is set before anything can fail. -/
def write (nand : NandController) (off val : Nat) : Bool × NandController :=
  let nand := { nand with reg := Function.update nand.reg off (some (val &&& 0xffffffff)) }
  if off = rFlashCmd then (true, { nand with lastCmd := val &&& 0xff })
  else if off = rExecCmd then (true, nand.execute)
  else if rFlashBuffer ≤ off ∧ off < rFlashBuffer + pageFull then
    match packInto nand.buffer (off - rFlashBuffer) (val &&& 0xffffffff) with
    | some buffer => (true, { nand with buffer })
    | none => (false, nand)
  else (true, nand)

end NandController

def nandFlashBuffer : Nat := nandBase + 0x100
def cmdPtrLp : Nat := 1 <<< 31
def cmdLc : Nat := 1 <<< 31
def dmovNandChan : Nat := 3

structure DmovModel where
  mem : Memory
  nand : NandController
  execCount : Nat
  lastChan : Option Nat
  bufCursor : Nat

namespace DmovModel

def isNandReg (ad : Nat) : Bool := nandBase ≤ ad &&& 0xffffffff && ad &&& 0xffffffff < nandBase + 0x400

def nandOff (ad : Nat) : Nat := (ad &&& 0xffffffff) - nandBase

/-- `range(0, count, 4)`. -/
def wordRange (count : Nat) : List Nat := (List.range ((count + 3) / 4)).map (4 * ·)

/-- Words of the page buffer into memory, each with a store of its own. -/
def drain (dmov : DmovModel) (src dst : Nat) (indices : List Nat) : Memory :=
  indices.foldl (fun mem i =>
    writeBytes mem (dst + i)
      (leBytes 4 (dmov.nand.read (nandOff src + dmov.bufCursor + i) &&& 0xffffffff))) dmov.mem

def fromNand (dmov : DmovModel) (src dst ln : Nat) : DmovModel :=
  if src = nandFlashBuffer then
    { dmov with
      mem := dmov.drain src dst (wordRange (min ln 2048))
      bufCursor := (dmov.bufCursor + min ln 2048) % 2048 }
  else
    { dmov with
      mem := writeBytes dmov.mem (dst &&& 0xffffffff)
        (leBytes 4 (dmov.nand.read (nandOff src) &&& 0xffffffff)) }

/-- One word into the controller; `false` if the read of memory or the write fails. -/
def program (dmov : DmovModel) (src off count : Nat) (nand : NandController) : Bool × NandController :=
  match dmov.mem.ucMemRead src count with
  | some bytes => if bytes.length = 4 then nand.write off (leValue bytes) else (false, nand)
  | none => (false, nand)

/-- The first failure ends the burst. -/
def burst (dmov : DmovModel) (src off : Nat) : List Nat → NandController → NandController
  | [], nand => nand
  | i :: rest, nand =>
    match dmov.program (src + i) (off + i) 4 nand with
    | (true, nand) => dmov.burst src off rest nand
    | (false, nand) => nand

def toNand (dmov : DmovModel) (src dst ln : Nat) : DmovModel :=
  let off := nandOff dst
  if dst = nandFlashBuffer then
    { dmov with
      nand := (wordRange (min ln 2048)).foldl
        (fun nand i => (dmov.program (src + i) (off + i) 4 nand).2) dmov.nand }
  else if ln = 16 then { dmov with nand := dmov.burst src off [0, 4, 8, 12] dmov.nand }
  else
    { dmov with
      bufCursor := if dst = nandBase + 0x10 then 0 else dmov.bufCursor
      nand := (dmov.program (src &&& 0xffffffff) off (min ln 4) dmov.nand).2 }

def ramToRam (dmov : DmovModel) (src dst ln : Nat) : DmovModel :=
  match dmov.mem.ucMemRead src (min ln 0x1000) with
  | some data => { dmov with mem := writeBytes dmov.mem dst data }
  | none => dmov

/-- `_exec_descriptor`; the command word decides nothing here. -/
def execDescriptor (dmov : DmovModel) (src dst ln : Nat) : DmovModel :=
  if isNandReg src then dmov.fromNand src dst ln
  else if isNandReg dst then dmov.toNand src dst ln
  else dmov.ramToRam src dst ln

/-- `_run_cmdlist`: a descriptor that cannot be read ends the list, like the one marked last. -/
def runCmdlist (dmov : DmovModel) (e : Nat) : Nat → DmovModel
  | 0 => dmov
  | fuel + 1 =>
    match dmov.mem.ucMemRead e 16 with
    | none => dmov
    | some bytes =>
      let dmov := dmov.execDescriptor (fieldAt bytes 4 4) (fieldAt bytes 8 4) (fieldAt bytes 12 4)
      if fieldAt bytes 0 4 &&& cmdLc ≠ 0 then dmov else dmov.runCmdlist (e + 16) fuel

/-- `_read_ram` of a word. -/
def readRam (dmov : DmovModel) (addr : Nat) : Option Nat :=
  (dmov.mem.ucMemRead (addr &&& 0xffffffff) 4).map leValue

/-- The next entry is looked for in the list that was just run. -/
def runPtrlist (dmov : DmovModel) (pptr : Nat) : Nat → Option DmovModel
  | 0 => some dmov
  | fuel + 1 =>
    match dmov.readRam pptr with
    | none => none
    | some p =>
      let cmdlist := (p &&& 0x7fffffff) <<< 3
      let dmov := dmov.runCmdlist cmdlist 65
      if p &&& cmdPtrLp ≠ 0 then some dmov else dmov.runPtrlist cmdlist fuel

def execCmdptr (dmov : DmovModel) (regval : Nat) : Option (Nat × DmovModel) :=
  let dmov := { dmov with execCount := dmov.execCount + 1 }
  (dmov.runPtrlist ((regval &&& 0x7fffffff) <<< 3) 17).map fun dmov =>
    (0x80000002, { dmov with lastChan := some dmovNandChan })

end DmovModel

end ZeeboLle.Device.Reference
