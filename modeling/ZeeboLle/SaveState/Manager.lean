import ZeeboLle.SaveState.Format
import Mathlib.Logic.Function.Basic

/-! `ZeeboSaveStateManager`: writing two engines to a file and reading them back. The bytes of a
region are moved in chunks. A copy loop is given as many rounds as there are bytes; a round moves
at least one. -/
namespace ZeeboLle.SaveState

open Paging Unicorn

inductive CoreId where
  | core0 | core1
deriving DecidableEq, Repr

namespace CoreId

/-- `rh.core_id == 0 ? uc0 : uc1` -/
def ofWord (id : Word) : CoreId := if id = 0 then .core0 else .core1

def word : CoreId → Word
  | .core0 => 0
  | .core1 => 1

@[simp] theorem ofWord_word (core : CoreId) : ofWord core.word = core := by cases core <;> rfl

theorem not_one_lt_word (core : CoreId) : ¬ 1 < core.word := by cases core <;> decide

end CoreId

abbrev Engines := CoreId → UcEngine

/-- The four values a caller keeps beside the engines. -/
structure Counters where
  c0Insns : DoubleWord
  c0Entry : Word
  c1Insns : DoubleWord
  c1Entry : Word
deriving DecidableEq, Repr

namespace ZeeboSaveStateManager

def stateMagic : Word := 0x5453425A
def stateVersion : Word := 2
def maxRegionSize : DoubleWord := 0x40000000
def maxRegions : Nat := 4096
def ioChunk : Nat := 0x100000

/-- The copy loop of `write_regions`. -/
def writeChunks (uc : UcEngine) (begin size : Nat) : (rounds done : Nat) → Option (List Byte)
  | 0, _ => some []
  | rounds + 1, done =>
    if done < size then do
      let n := min ioChunk (size - done)
      let chunk ← uc.ucMemRead (begin + done) n
      let later ← writeChunks uc begin size rounds (done + n)
      return chunk ++ later
    else some []

/-- The header in front of a region's bytes. -/
def regionHeader (core : CoreId) (region : UcMemRegion) : ZeeboMemRegionHeader :=
  ⟨region.begin, region.last, region.perms, core.word, region.size⟩

def writeRegions (uc : UcEngine) (core : CoreId) : List UcMemRegion → Option (List Byte)
  | [] => some []
  | region :: regions =>
    if region.last < region.begin then none
    else if region.size = 0 ∨ region.size > maxRegionSize then none
    else do
      let data ← writeChunks uc region.begin.toNat region.size.toNat region.size.toNat 0
      let later ← writeRegions uc core regions
      return (regionHeader core region).bytes ++ (data ++ later)

/-- The header `save_state` fills in. -/
def stateHeader (engines : Engines) (counters : Counters) : ZeeboLLEStateHeader where
  magic := stateMagic
  version := stateVersion
  c0Insns := counters.c0Insns
  c0Entry := counters.c0Entry
  c1Insns := counters.c1Insns
  c1Entry := counters.c1Entry
  c0ContextSize := BitVec.ofNat 32 (engines .core0).ucContextSize
  c1ContextSize := BitVec.ofNat 32 (engines .core1).ucContextSize
  numMemRegions := BitVec.ofNat 32
    ((engines .core0).map.regions.length + (engines .core1).map.regions.length)

/-- The file, when `save_state` returns true. -/
def saveState (engines : Engines) (counters : Counters) : Option (List Byte) :=
  let uc0 := engines .core0
  let uc1 := engines .core1
  if uc0.ucContextSize > 0xFFFFFFFF ∨ uc1.ucContextSize > 0xFFFFFFFF then none
  else if uc0.map.regions.length > maxRegions ∨
      uc1.map.regions.length > maxRegions - uc0.map.regions.length then none
  else do
    let regions0 ← writeRegions uc0 .core0 uc0.map.regions
    let regions1 ← writeRegions uc1 .core1 uc1.map.regions
    return (stateHeader engines counters).bytes ++
      (uc0.context ++ (uc1.context ++ (regions0 ++ regions1)))

/-- The bytes asked for and what follows them, or nothing from a file too short. -/
def readExact (input : List Byte) (size : Nat) : Option (List Byte × List Byte) :=
  if size ≤ input.length then some (input.take size, input.drop size) else none

/-- The copy loop of `load_state`; it stops at the first chunk that is missing from the file or
does not go into the engine. -/
def loadChunks (begin size : Nat) :
    (rounds done : Nat) → UcEngine → List Byte → UcEngine × Option (List Byte)
  | 0, _, uc, input => (uc, some input)
  | rounds + 1, done, uc, input =>
    if done < size then
      let n := min ioChunk (size - done)
      match readExact input n with
      | none => (uc, none)
      | some (chunk, rest) =>
        let (error, uc) := uc.ucMemWrite (begin + done) chunk
        if error = .ok then loadChunks begin size rounds (done + n) uc rest else (uc, none)
    else (uc, some input)

/-- The checks on a region header before the engine is asked. -/
def malformed (rh : ZeeboMemRegionHeader) : Bool :=
  rh.coreId > 1 || rh.last < rh.begin || rh.dataSize != rh.last - rh.begin + 1 ||
    rh.dataSize == 0 || rh.dataSize > maxRegionSize || rh.begin + rh.dataSize - 1 != rh.last

/-- A region that is already mapped is overwritten where it is. -/
def loadRegion (engines : Engines) (input : List Byte) : Engines × Option (List Byte) :=
  match readExact input ZeeboMemRegionHeader.packedSize with
  | none => (engines, none)
  | some (record, rest) =>
    let rh := ZeeboMemRegionHeader.ofBytes record
    if malformed rh then (engines, none)
    else
      let core := CoreId.ofWord rh.coreId
      let (mapErr, uc) := (engines core).ucMemMap rh.begin rh.dataSize rh.perms
      if mapErr ≠ .ok ∧ mapErr ≠ .map then (Function.update engines core uc, none)
      else
        let (uc, rest) := loadChunks rh.begin.toNat rh.dataSize.toNat rh.dataSize.toNat 0 uc rest
        (Function.update engines core uc, rest)

def loadRegions : Nat → Engines → List Byte → Engines × Option (List Byte)
  | 0, engines, input => (engines, some input)
  | count + 1, engines, input =>
    match loadRegion engines input with
    | (engines, none) => (engines, none)
    | (engines, some rest) => loadRegions count engines rest

/-- Both contexts, core 0 first; core 1 is not tried when core 0 refuses. -/
def restoreContexts (engines : Engines) (c0Ctx c1Ctx : List Byte) : Bool × Engines :=
  let (error, uc0) := (engines .core0).ucContextRestore c0Ctx
  let engines := Function.update engines .core0 uc0
  if error = .ok then
    let (error, uc1) := (engines .core1).ucContextRestore c1Ctx
    (error = .ok, Function.update engines .core1 uc1)
  else (false, engines)

/-- What stands in a file before its regions. -/
structure Front where
  hdr : ZeeboLLEStateHeader
  c0Ctx : List Byte
  c1Ctx : List Byte
  body : List Byte
deriving DecidableEq, Repr

/-- Header and contexts, read and checked before any engine is touched. -/
def readFront (engines : Engines) (file : List Byte) : Option Front := do
  let (record, input) ← readExact file ZeeboLLEStateHeader.packedSize
  let hdr := ZeeboLLEStateHeader.ofBytes record
  if hdr.magic ≠ stateMagic ∨ hdr.version ≠ stateVersion ∨ hdr.numMemRegions.toNat > maxRegions then
    none
  else if hdr.c0ContextSize.toNat ≠ (engines .core0).ucContextSize ∨
      hdr.c1ContextSize.toNat ≠ (engines .core1).ucContextSize then
    none
  else
    let (c0Ctx, input) ← readExact input (engines .core0).ucContextSize
    let (c1Ctx, body) ← readExact input (engines .core1).ucContextSize
    return ⟨hdr, c0Ctx, c1Ctx, body⟩

/-- What a call leaves behind, with the value it returns. -/
@[ext] structure Loaded where
  ok : Bool
  engines : Engines
  counters : Counters

def loadState (file : List Byte) (engines : Engines) (counters : Counters) : Loaded :=
  match readFront engines file with
  | none => ⟨false, engines, counters⟩
  | some front =>
    match loadRegions front.hdr.numMemRegions.toNat engines front.body with
    | (engines, none) => ⟨false, engines, counters⟩
    | (engines, some _) =>
      match restoreContexts engines front.c0Ctx front.c1Ctx with
      | (false, engines) => ⟨false, engines, counters⟩
      | (true, engines) =>
        ⟨true, engines, front.hdr.c0Insns, front.hdr.c0Entry, front.hdr.c1Insns, front.hdr.c1Entry⟩

end ZeeboSaveStateManager

end ZeeboLle.SaveState
