import ZeeboLle.L4.MapControl
import ZeeboLle.L4.SpaceManager
import ZeeboLle.L4.ThreadTable

/-! The Core 0 system-call hook. Every L4 trap of the guest goes through
`c0_intr_hook`: the trap number is in SP, the user stack pointer in r12, and the hook
answers the call, hands control to another thread or records the request. Translation
caches, the GPU kick and diagnostics have no counterpart here. -/
namespace ZeeboLle.System

open Paging Unicorn L4

/-- The services threads are registered under. -/
inductive ServiceName where
  | igNaming | quartzServers | amss
deriving DecidableEq, Repr

/-- The part of the service registry the hook reads: the service behind each thread. -/
structure ServiceRegistry where
  byTid : Word → Option ServiceName

namespace ServiceRegistry

def empty : ServiceRegistry := ⟨fun _ => none⟩

def registerService (registry : ServiceRegistry) (name : ServiceName) (tid : Word) :
    ServiceRegistry :=
  if tid = 0 then registry else ⟨Function.update registry.byTid tid (some name)⟩

def isAmssThread (registry : ServiceRegistry) (tid : Word) : Bool :=
  registry.byTid tid = some .amss

end ServiceRegistry

/-- What the hook reads and changes on Core 0. -/
structure LleSystem where
  regs : RegFile
  mem : Memory
  threadTable : ThreadTable
  serviceRegistry : ServiceRegistry
  spaceManager : SpaceManager
  spaceMap : Word → Option VtlbLut
  vtlb : VtlbLut
  appsPool : PhysPool
  entry : Word
  insns : Nat

/-- A word of guest memory, zero where it is not mapped. -/
def readWord (mem : Memory) (address : Word) : Word := (mem.ucMemRead32 address.toNat).getD 0

def writeWord (mem : Memory) (address value : Word) : Memory :=
  (mem.ucMemWrite32 address.toNat value).2

/-- `uc_mem_write` of several words: nothing unless all of them are mapped. -/
def writeWords (mem : Memory) (address : Word) (values : List Word) : Memory :=
  let slots := values.zipIdx.map fun (value, index) => (address + BitVec.ofNat 32 (4 * index), value)
  if slots.all fun slot => (mem.ucMemRead32 slot.1.toNat).isSome then
    slots.foldl (fun mem slot => writeWord mem slot.1 slot.2) mem
  else mem

/-- Where the kernel keeps the address of the current UTCB. -/
def utcbPtr (mem : Memory) : Word := readWord mem 0xff000ff0

/-- An answered call: the system, the result for r0, and whether control was handed to
another thread. -/
structure Answer where
  sys : LleSystem
  res : Word
  didHandoff : Bool

namespace LleSystem

/-- The message a waiting server finds when none was delivered: opcode 0x16. -/
def injectMessage (sys : LleSystem) : LleSystem :=
  let utcb := utcbPtr sys.mem
  if utcb = 0 then sys
  else if readWord sys.mem (utcb + 0x44) < 0x16 then
    { sys with mem := writeWord (writeWord sys.mem (utcb + 0x40) 1) (utcb + 0x44) 0x16 }
  else sys

def saveCurrent (sys : LleSystem) : LleSystem :=
  { sys with
    threadTable := sys.threadTable.saveContext sys.threadTable.currentTid (cpuContextRead sys.regs) }

/-- The switch is only queued: the engine is inside a slice. -/
def queueSpace (sys : LleSystem) (tid : Word) : LleSystem :=
  let sid := sys.threadTable.threadSpace tid
  if sid ≠ 0 ∧ sys.spaceManager.hasSpace sid = true then
    { sys with spaceManager := sys.spaceManager.queueActivate sid }
  else sys

/-- The environment table of an AMSS thread, if its stack does not name one yet. -/
def injectEnvironment (sys : LleSystem) (targetSp : Word) : LleSystem :=
  if readWord sys.mem targetSp = 0 then
    let mem := writeWords sys.mem 0xb0d02000 [5, 0x11800000, 6, 0x00500000, 0, 0]
    { sys with mem := writeWord mem targetSp 0xb0d02000 }
  else sys

/-- First activation: PC and SP from `L4_ExchangeRegisters`. -/
def enterThread (sys : LleSystem) (tid : Word) (thread : ThreadInfo) : LleSystem :=
  let sys := { sys with regs := sys.regs.writePc (withT thread.ip (thread.ip &&& 1#32)) }
  if thread.sp = 0 then sys
  else
    let sys := { sys with regs := sys.regs.writeSp thread.sp }
    if sys.serviceRegistry.isAmssThread tid then sys.injectEnvironment thread.sp else sys

/-- Make a thread current, queue its space and load its registers. -/
def handTo (sys : LleSystem) (tid : Word) (thread : ThreadInfo) : LleSystem :=
  let sys := { sys with threadTable := sys.threadTable.setCurrentTid tid }
  let sys := sys.queueSpace tid
  match sys.threadTable.loadContext tid with
  | some ctx => { sys with regs := cpuContextWrite sys.regs ctx }
  | none => sys.enterThread tid thread

/-- The thread a call would switch to: another one, with an entry point. -/
def nextThread (sys : LleSystem) : Option (Word × ThreadInfo) :=
  let curTid := sys.threadTable.currentTid
  let nextTid := sys.threadTable.pickNextThread curTid
  if nextTid ≠ 0 ∧ nextTid ≠ curTid then
    match sys.threadTable.getThread nextTid with
    | some thread => if thread.ip ≠ 0 then some (nextTid, thread) else none
    | none => none
  else none

/-- `L4_Ipc` saves the caller only if the table knows it. -/
def saveCaller (sys : LleSystem) : LleSystem :=
  let curTid := sys.threadTable.currentTid
  match sys.threadTable.getThread curTid with
  | none => sys
  | some _ =>
    let saved := sys.saveCurrent
    { saved with
      threadTable := saved.threadTable.edit curTid fun cur =>
        { cur with ip := sys.regs.readPc, sp := sys.regs.readSp } }

def l4Ipc (sys : LleSystem) : Answer :=
  let sys := sys.injectMessage
  match sys.nextThread with
  | none => ⟨sys, 0, false⟩
  | some (nextTid, thread) => ⟨sys.saveCaller.handTo nextTid thread, 0, true⟩

def l4ThreadSwitch (sys : LleSystem) : Answer :=
  match sys.nextThread with
  | none => ⟨sys, 0, false⟩
  | some (nextTid, thread) => ⟨sys.saveCurrent.handTo nextTid thread, 0, true⟩

/-- The pager is a thread; its space becomes the base of the new one. A pager value
that is no thread but a known space stands for that space. -/
def l4ThreadControl (sys : LleSystem) : Answer :=
  let dest := sys.regs.r 0
  let space := sys.regs.r 1
  let pager := sys.regs.r 3
  let threadTable := sys.threadTable.onThreadControl dest space (sys.regs.r 2) pager
  let named := threadTable.threadSpace pager
  let base := if named = 0 ∧ sys.spaceManager.hasSpace pager = true then pager else named
  let spaceManager :=
    if space ≠ 0 ∧ pager ≠ 0 ∧ base ≠ 0 ∧ base ≠ space then sys.spaceManager.linkBase space base
    else sys.spaceManager
  ⟨{ sys with threadTable, spaceManager }, 1, false⟩

/-- The service whose code a thread is started in. -/
def serviceAt (ip : Word) : Option ServiceName :=
  if 0xb0100000 ≤ ip ∧ ip < 0xb0120000 then some .igNaming
  else if 0xb0300000 ≤ ip ∧ ip < 0xb0330000 then some .quartzServers
  else if 0x10137000 ≤ ip ∧ ip < 0x10200000 then some .amss
  else none

/-- With the deliver bit the old values come back in r1-r6. -/
def deliverOld (regs : RegFile) (dest : Word) (old : ThreadInfo) : RegFile :=
  let handle := if dest = 0x80000100 ∧ old.userDefHandle = 0 then 0xb0d00000 else old.userDefHandle
  (((((regs.write 1 0).write 2 old.sp).write 3 old.ip).write 4 old.flags).write 5 handle).write 6
    old.pager

def l4ExchangeRegisters (sys : LleSystem) : Answer :=
  let dest := sys.regs.r 0
  let control := sys.regs.r 1
  let newIp := sys.regs.r 3
  let old := (sys.threadTable.getThread dest).getD ThreadInfo.fresh
  let table := sys.threadTable.onExchangeRegisters dest control (sys.regs.r 2) newIp (sys.regs.r 4)
  let table :=
    if ThreadTable.exregsUhandle control then table.setUserDefHandle dest (sys.regs.r 5) else table
  let inherit := table.threadSpace table.currentTid
  let table :=
    if table.threadSpace dest = 0 ∧ inherit ≠ 0 then table.setThreadSpace dest inherit else table
  let regs := if ThreadTable.exregsDeliver control then deliverOld sys.regs dest old else sys.regs
  let serviceRegistry :=
    match serviceAt newIp with
    | some name => sys.serviceRegistry.registerService name dest
    | none => sys.serviceRegistry
  ⟨{ sys with threadTable := table, regs, serviceRegistry }, dest, false⟩

/-- Regions with a buffer in the pool are recorded for the space of the call. -/
def recordItem (pool : PhysPool) (sid : Word) (mgr : SpaceManager) (item : MapItem) : SpaceManager :=
  if item.fpage.isNil || item.fpage.isWholeSpace then mgr
  else
    let va := item.fpage.vaddr
    let size := item.fpage.sizeBytes
    let phys := item.phys.physBase
    let host := pool.hostOf phys
    if host = nullptr ∨ pool.contains phys size = false then mgr
    else mgr.record sid va size (fpageToUcProt item.fpage) host

/-- One request goes to the engine and the space's own table, then to the region
recorder, then to the engine again without the pool. -/
def l4MapControl (sys : LleSystem) : Answer :=
  let sid := sys.regs.r 0
  let control : MapControl := ⟨sys.regs.r 1⟩
  let utcb := utcbPtr sys.mem
  if sys.appsPool.host ≠ nullptr then
    let lut := (sys.spaceMap sid).getD VtlbLut.empty
    let (res, first) := handleMapControl sys.mem utcb control (some sys.appsPool) (some lut)
    let spaceManager := first.items.foldl (recordItem sys.appsPool sid) sys.spaceManager
    let second := (handleMapControl first.mem utcb control none (some sys.vtlb)).2
    ⟨{ sys with
        mem := second.mem
        spaceMap := Function.update sys.spaceMap sid first.lut
        spaceManager
        vtlb := second.lut.getD sys.vtlb }, res, false⟩
  else
    let (res, first) := handleMapControl sys.mem utcb control none none
    ⟨{ sys with mem := first.mem }, res, false⟩

/-- The kernel interface page, its version and flags; the caller's output pointers are
filled in as well. -/
def l4KernelInterface (sys : LleSystem) : Answer :=
  let put := fun (mem : Memory) (pointer value : Word) =>
    if pointer ≠ 0 then writeWord mem pointer value else mem
  let mem := put (put (put sys.mem (sys.regs.r 4) 0xc) (sys.regs.r 5) 2) (sys.regs.r 6) 0
  let regs := ((sys.regs.write 1 0xc).write 2 2).write 3 0
  ⟨{ sys with mem, regs }, 0xf0f00000, false⟩

/-- Dispatch on the trap number. -/
def dispatch (sys : LleSystem) (syscall : Word) : Answer :=
  match syscall.toNat with
  | 0x00 => sys.l4Ipc
  | 0x04 => sys.l4ThreadSwitch
  | 0x08 => sys.l4ThreadControl
  | 0x0c => sys.l4ExchangeRegisters
  | 0x14 => sys.l4MapControl
  | 0x18 => ⟨sys, 1, false⟩
  | 0xb0 => ⟨sys, 0xff000f00, false⟩
  | 0xb4 => sys.l4KernelInterface
  | 0xe0 => ⟨sys, BitVec.ofNat 32 (sys.insns / 1000 + 1), false⟩
  | _ => ⟨sys, 0, false⟩

/-- Code ranges whose trap stubs are ARM. -/
def armStub (pc : Word) : Bool :=
  (0xb0000000 ≤ pc && pc < 0xb0020000) || (0xb0100000 ≤ pc && pc < 0xb0120000) ||
    (0xb0300000 ≤ pc && pc < 0xb0330000) || (0x103dc000 ≤ pc && pc < 0x103de000)

def applyTbit (pc value : Word) : Word := if armStub pc then value &&& ~~~1#32 else value ||| 1#32

def restoreSp (regs : RegFile) (ip : Word) : RegFile := if ip ≠ 0 then regs.writeSp ip else regs

/-- The return path: the registers the caller resumes with and the new entry point. -/
def returnPath (regs : RegFile) (syscall pc ip lr : Word) (didHandoff : Bool) : RegFile × Word :=
  if syscall = 0x00 ∨ syscall = 0x04 then
    if didHandoff then (regs, regs.readPc)
    else ((restoreSp regs ip).writePc (applyTbit pc pc), applyTbit pc pc)
  else if syscall = 0x08 ∨ syscall = 0x0c ∨ syscall = 0x10 ∨ syscall = 0x14 ∨ syscall = 0x18 ∨
      syscall = 0xb4 then
    ((restoreSp regs ip).writePc (applyTbit pc pc), applyTbit pc pc)
  else if lr ≠ 0 then ((restoreSp regs ip).writePc (applyTbit pc lr), applyTbit pc lr)
  else (restoreSp regs ip, 0)

/-- `c0_intr_hook` for the supervisor-call exception. -/
def c0IntrHook (sys : LleSystem) : LleSystem :=
  let pc := sys.regs.readPc
  let syscall := sys.regs.readSp &&& 0xff#32
  let ip := sys.regs.r 12
  let lr := sys.regs.readLr
  let answer := sys.dispatch syscall
  let regs := answer.sys.regs.write 0 answer.res
  let (regs, targetPc) := returnPath regs syscall pc ip lr answer.didHandoff
  { answer.sys with
    regs
    entry := if targetPc ≠ 0 then targetPc else answer.sys.entry }

end LleSystem

end ZeeboLle.System
