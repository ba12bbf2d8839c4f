import ZeeboLle.Paging.KeyedList
import ZeeboLle.Unicorn.View

/-! The runner that stands in for BREW when a game runs alone: the heap stub, and the calls of
the file manager and of its files. A hook takes its arguments from registers and returns to the
caller; here they are arguments and result. -/
namespace ZeeboLle.Zeetris

open Paging Unicorn

structure OpenFileInfo where
  name : List Byte
  data : List Byte
  position : Word
deriving DecidableEq

/-- The part of the context that files and heap use. -/
structure ZeetrisContext where
  heapPtr : Word := 0x30005000
  openFiles : List (Word × OpenFileInfo) := []

def appCtxVa : Word := 0x30010000
def heapBase : Word := 0x30005000

structure Runner where
  mem : Memory
  ctx : ZeetrisContext

/-- A request rounded up to eight bytes, in 32 bits. -/
def alignedSz (reqSz : Word) : Word := (reqSz + 7) &&& ~~~7

def hookMallocStub (ctx : ZeetrisContext) (reqSz : Word) : Word × ZeetrisContext :=
  (ctx.heapPtr, { ctx with heapPtr := ctx.heapPtr + alignedSz reqSz })

def extraObjVa : Word := 0x60000000
def extraVtblVa : Word := 0x60001000
def fileMgrObjVa : Word := 0x60002000
def fileMgrVtblVa : Word := 0x60003000
def bitmapObjVa : Word := 0x60004000
def bitmapVtblVa : Word := 0x60005000
def fileObjBaseVa : Word := 0x60006000
def iglObjVa : Word := 0x60007000
def iglVtblVa : Word := 0x60008000
def iglSlots : Nat := 80
def displayObjVa : Word := iglObjVa
def displayVtblVa : Word := iglVtblVa
def fileVtblVa : Word := 0x60009000
def notifyObjVa : Word := 0x6000a000
def notifyVtblVa : Word := 0x6000b000
def ishellObj : Word := 0x40000000
def ishellVt : Word := 0x40001000
def staticBaseVa : Word := 0x30000000
def mallocStubVa : Word := 0x30002000
def freeStubVa : Word := 0x30002080
def getUptimeVa : Word := 0x30002100

/-- A range of addresses. -/
structure Range where
  base : Nat
  size : Nat
deriving DecidableEq

namespace Range

def Apart (range other : Range) : Prop :=
  range.base + range.size ≤ other.base ∨ other.base + other.size ≤ range.base

instance (range other : Range) : Decidable (range.Apart other) := inferInstanceAs (Decidable (_ ∨ _))

def Covers (range : Range) (address : Nat) : Prop := range.base ≤ address ∧ address < range.base + range.size

end Range

def word (va : Word) : Range := ⟨va.toNat, 4⟩

def vtable (va : Word) (slots : Nat) : Range := ⟨va.toNat, slots * 4⟩

/-- What `setup_and_start` creates: stubs with the slots that point to them, objects and vtables. -/
def created : List Range :=
  [word mallocStubVa, word freeStubVa, ⟨getUptimeVa.toNat, 8⟩,
    word (staticBaseVa + 0x68), word (staticBaseVa + 0x6c), word (staticBaseVa + 0xb0),
    word ishellObj, vtable ishellVt 64, word extraObjVa, vtable extraVtblVa 64,
    word iglObjVa, vtable iglVtblVa iglSlots, word bitmapObjVa, vtable bitmapVtblVa 64,
    word fileMgrObjVa, vtable fileMgrVtblVa 64, vtable fileVtblVa 64,
    word notifyObjVa, vtable notifyVtblVa 64]

namespace ZeetrisContext

def fileOf (ctx : ZeetrisContext) (handle : Word) : Option OpenFileInfo :=
  (ctx.openFiles.find? fun entry => entry.1 = handle).map Prod.snd

def setFile (ctx : ZeetrisContext) (handle : Word) (info : OpenFileInfo) : ZeetrisContext :=
  { ctx with openFiles := upsert Prod.fst (handle, info) ctx.openFiles }

end ZeetrisContext

/-- `OpenFile` with the name it read and what the host's file holds, nothing for a missing one. -/
def openFile (runner : Runner) (fname fileBytes : List Byte) : Word × Runner :=
  if fileBytes.isEmpty then (0, runner)
  else
    let handleIdx : Word := BitVec.ofNat 32 runner.ctx.openFiles.length
    let fileHandle := fileObjBaseVa + handleIdx * 0x100
    (fileHandle,
      { mem := writeBytes runner.mem fileHandle.toNat (wordBytes fileVtblVa)
        ctx := runner.ctx.setFile fileHandle ⟨fname, fileBytes, 0⟩ })

/-- `IFile::Read`: how much was read. -/
def fileRead (runner : Runner) (handle pDest nWant : Word) : Word × Runner :=
  match runner.ctx.fileOf handle with
  | none => (0, runner)
  | some file =>
    if pDest = 0 then (0, runner)
    else if file.position.toNat < file.data.length then
      let avail := file.data.length - file.position.toNat
      let bytesRead : Word := BitVec.ofNat 32 (min nWant.toNat avail)
      (bytesRead,
        { mem := writeBytes runner.mem pDest.toNat
            ((file.data.drop file.position.toNat).take bytesRead.toNat)
          ctx := runner.ctx.setFile handle { file with position := file.position + bytesRead } })
    else (0, runner)

def seekStart : Word := 0
def seekEnd : Word := 1
def seekCurrent : Word := 2

/-- The place a seek asks for, in 64 bits. -/
def seekTarget (file : OpenFileInfo) (seekType dist : Word) : Int :=
  if seekType = seekStart then dist.toInt
  else if seekType = seekEnd then file.data.length + dist.toInt
  else if seekType = seekCurrent then file.position.toNat + dist.toInt
  else file.position.toNat

/-- `IFile::Seek` always answers 0. -/
def fileSeek (runner : Runner) (handle seekType dist : Word) : Word × Runner :=
  match runner.ctx.fileOf handle with
  | none => (0, runner)
  | some file =>
    let newPos := seekTarget file seekType dist
    let newPos := if newPos < 0 then 0 else newPos
    let newPos := if newPos > file.data.length then (file.data.length : Int) else newPos
    (0, { runner with
      ctx := runner.ctx.setFile handle { file with position := BitVec.ofInt 32 newPos } })

namespace ZeetrisContext

variable {ctx : ZeetrisContext} {handle other : Word} {info : OpenFileInfo}

@[simp] theorem fileOf_setFile : (ctx.setFile handle info).fileOf other =
    if handle = other then some info else ctx.fileOf other := by
  unfold fileOf setFile
  rw [find?_upsert]
  split <;> rfl

end ZeetrisContext

variable {mem : Memory}

/-- No two addresses of the engine share a byte: its pages are its own. -/
def Unshared (mem : Memory) : Prop := mem.Owns fun address => (mem.cell address).isSome = true

/-- Memory that came from `uc_mem_map` alone. -/
theorem unshared_of_ram (ram : ∀ page held, mem.pages page = some held → held.backing = .ram) :
    Unshared mem := by
  refine Memory.owns_ram fun address mapped => ?_
  obtain ⟨inside, present⟩ := Memory.isSome_cell.mp mapped
  obtain ⟨held, found⟩ := Option.isSome_iff_exists.mp present
  rw [Memory.cell, if_pos inside, found, Option.map_some, ram _ held found]

theorem unshared_ucMemMap (address size : Nat) (perms : Prot) :
    Unshared (Memory.blank.ucMemMap address size perms).2 := by
  have free : Memory.blank.pages.free (pageSpan address size) = true :=
    PageTable.free_iff.mpr fun page _ => rfl
  refine unshared_of_ram fun page held found => ?_
  rw [Memory.ucMemMap_free free] at found
  dsimp only at found
  by_cases inside : page ∈ pageSpan address size
  · rw [PageTable.install_of_mem inside] at found
    rw [← Option.some.inj found]
  · rw [PageTable.install_of_not_mem inside] at found
    cases found

theorem Unshared.writeBytes (unshared : Unshared mem) (start : Nat) (bytes : List Byte) :
    Unshared (writeBytes mem start bytes) := by
  unfold Unshared Unicorn.writeBytes
  constructor
  · rw [Memory.cell_ucMemWrite]
    exact unshared.mapped
  · rw [Memory.cell_ucMemWrite]
    exact unshared.apart

theorem Unshared.sees (unshared : Unshared mem) {start : Nat} {bytes : List Byte}
    (backed : mem.backed start bytes.length = true) :
    (Unicorn.writeBytes mem start bytes).Sees (fun address => (mem.cell address).isSome = true)
      (patch mem.byteAt start bytes) :=
  (Memory.Owns.sees unshared).ucMemWrite start bytes (Memory.backed_iff.mp backed)

/-- A write leaves the bytes beside it alone. -/
theorem Unshared.byteAt_apart (unshared : Unshared mem) {start address : Nat} {bytes : List Byte}
    (apart : address < start ∨ start + bytes.length ≤ address) :
    (Unicorn.writeBytes mem start bytes).byteAt address = mem.byteAt address := by
  cases backed : mem.backed start bytes.length with
  | false =>
    rw [Unicorn.writeBytes, Memory.ucMemWrite, if_neg (Bool.eq_false_iff.mp backed)]
  | true =>
    cases mapped : (mem.cell address).isSome with
    | true =>
      rw [(unshared.sees backed).holds address mapped]
      exact patch_apart apart
    | false =>
      have missing : mem.cell address = none := by simpa using mapped
      have after : (Unicorn.writeBytes mem start bytes).cell address = none := by
        rw [Unicorn.writeBytes, Memory.cell_ucMemWrite, missing]
      rw [Memory.byteAt, Memory.byteAt, missing, after]

end ZeeboLle.Zeetris
