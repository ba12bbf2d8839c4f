import ZeeboLle.Paging.Bytes
import ZeeboLle.Unicorn.Memory

/-! The register models behind the other peripheral windows, and the modem's command block.
The display engine's scanout needs a reader of guest memory that nothing attaches, so a
write of the list pointer stops at the registers. -/
namespace ZeeboLle.Device

open Paging Unicorn

structure UnifiedMddi where
  status : Word
  priPtr : Word
  frameCount : Word
  regs : Word → Word

namespace UnifiedMddi

def initial : UnifiedMddi := ⟨0x21, 0, 0, fun _ => 0⟩

def version : Word := 0x102

def read (mddi : UnifiedMddi) (off : Word) : Word :=
  if off = 0x4 then version
  else if off = 0x28 then mddi.status
  else if off = 0x8 then mddi.priPtr
  else mddi.regs off

def write (mddi : UnifiedMddi) (off value : Word) : UnifiedMddi :=
  let mddi := { mddi with regs := Function.update mddi.regs off value }
  if off = 0x0 then
    if value &&& 0xff00 = 0x200 then { mddi with status := mddi.status ||| 0x1 }
    else if value &&& 0xff00 = 0x400 then { mddi with status := 0x21 }
    else mddi
  else if off = 0x8 then
    { mddi with
      priPtr := value
      frameCount := mddi.frameCount + 1
      status := mddi.status ||| 0x20 }
  else mddi

end UnifiedMddi

structure UnifiedAdreno130 where
  status : Word
  rbRptr : Word
  rbWptr : Word
  intStatus : Word
  intEn : Word
  draws : Word
  fbDirty : Bool
  regs : Word → Word

namespace UnifiedAdreno130

def initial : UnifiedAdreno130 := ⟨1, 0, 0, 0, 0, 0, false, fun _ => 0⟩

def chipIdYamato : Word := 0x01030000

def read (gpu : UnifiedAdreno130) (off : Word) : Word :=
  if off = 0x0 then chipIdYamato
  else if off = 0x4 then 1
  else if off = 0x110 then gpu.status
  else if off = 0x108 then gpu.rbRptr
  else if off = 0x10c then gpu.rbWptr
  else if off = 0x120 then gpu.intStatus
  else gpu.regs off

/-- A new write pointer runs the ring to its end at once. -/
def write (gpu : UnifiedAdreno130) (off value : Word) : UnifiedAdreno130 :=
  let gpu := { gpu with regs := Function.update gpu.regs off value }
  if off = 0x10c then
    { gpu with
      rbWptr := value
      draws := gpu.draws +
        if value ≥ gpu.rbRptr then value - gpu.rbRptr else 0x10000 - gpu.rbRptr + value
      rbRptr := value
      fbDirty := true
      intStatus := if gpu.intEn &&& 1 ≠ 0 then gpu.intStatus ||| 1 else gpu.intStatus }
  else if off = 0x124 then { gpu with intEn := value }
  else if off = 0x128 then { gpu with intStatus := gpu.intStatus &&& ~~~value }
  else gpu

end UnifiedAdreno130

structure UnifiedInput where
  keysPressed : Word
  intStatus : Word
deriving DecidableEq

namespace UnifiedInput

def initial : UnifiedInput := ⟨0, 0⟩

/-- The part of `press_key` that stays in the model of the pad. -/
def latch (input : UnifiedInput) (keyBit : Word) : UnifiedInput :=
  ⟨input.keysPressed ||| keyBit, input.intStatus ||| 1⟩

def releaseKey (input : UnifiedInput) (keyBit : Word) : UnifiedInput :=
  { input with keysPressed := input.keysPressed &&& ~~~keyBit }

def read (input : UnifiedInput) (off : Word) : Word :=
  if off = 0x0 then input.keysPressed
  else if off = 0x4 then input.intStatus
  else 0

def write (input : UnifiedInput) (off value : Word) : UnifiedInput :=
  if off = 0x4 then { input with intStatus := input.intStatus &&& ~~~value } else input

end UnifiedInput

/-- `memcpy` of a word out of host memory. -/
def hostRead32 (host : HostPtr → Byte) (ptr : HostPtr) : Word :=
  BitVec.ofNat 32 (leValue ((List.range 4).map fun index => host (ptr + index)))

def hostWrite32 (host : HostPtr → Byte) (ptr : HostPtr) (value : Word) : HostPtr → Byte :=
  writeAll host (((List.range 4).map fun index => ptr + index).zip (leBytes 4 value.toNat))

theorem hostRead32_hostWrite32 (host : HostPtr → Byte) (ptr : HostPtr) (value : Word) :
    hostRead32 (hostWrite32 host ptr value) ptr = value := by
  have bytes : (List.range 4).map (fun index => hostWrite32 host ptr value (ptr + index)) =
      leBytes 4 value.toNat := by
    simp [hostWrite32, leBytes, List.range_succ, writeAll]
  have whole : value.toNat % 0x100 ^ 4 = value.toNat := Nat.mod_eq_of_lt value.isLt
  rw [hostRead32, bytes, leValue_leBytes, whole, BitVec.ofNat_toNat, BitVec.setWidth_eq]

theorem hostWrite32_apart {host : HostPtr → Byte} {ptr other : Nat} {value : Word}
    (apart : other < ptr ∨ ptr + 4 ≤ other) : hostWrite32 host ptr value other = host other := by
  refine writeAll_outside fun write member same => ?_
  obtain ⟨index, found, here⟩ := List.mem_map.mp (List.of_mem_zip member).1
  have below := List.mem_range.mp found
  have place : ptr + index = other := here.trans same
  omega

/-- A word that does not overlap the one written reads as before. -/
theorem hostRead32_apart {host : HostPtr → Byte} {ptr other : Nat} {value : Word}
    (apart : other + 4 ≤ ptr ∨ ptr + 4 ≤ other) :
    hostRead32 (hostWrite32 host ptr value) other = hostRead32 host other := by
  have bytes : (List.range 4).map (fun index => hostWrite32 host ptr value (other + index)) =
      (List.range 4).map fun index => host (other + index) := by
    refine List.map_congr_left fun index member => hostWrite32_apart ?_
    have below := List.mem_range.mp member
    omega
  rw [hostRead32, bytes, hostRead32]

/-- Writing back what is there changes nothing. -/
theorem hostWrite32_self (host : HostPtr → Byte) (ptr : HostPtr) :
    hostWrite32 host ptr (hostRead32 host ptr) = host := by
  have bytes : leBytes 4 (hostRead32 host ptr).toNat =
      (List.range 4).map fun index => host (ptr + index) := by
    have small : leValue ((List.range 4).map fun index => host (ptr + index)) < 2 ^ 32 := by
      have bound := leValue_lt ((List.range 4).map fun index => host (ptr + index))
      rwa [List.length_map, List.length_range] at bound
    have back := leBytes_leValue ((List.range 4).map fun index => host (ptr + index))
    rw [List.length_map, List.length_range] at back
    rw [hostRead32, BitVec.toNat_ofNat, Nat.mod_eq_of_lt small, back]
  rw [hostWrite32, bytes]
  simp [List.range_succ, writeAll]

/-- The command block lies at the start of a host buffer large enough for all of it. -/
structure ProcComm where
  smem : HostPtr
deriving DecidableEq

namespace ProcComm

def offAppCommand : Nat := 0x0
def offAppStatus : Nat := 0x4
def offAppData1 : Nat := 0x8
def offAppData2 : Nat := 0xc
def offPendFlag : Nat := 0x20
def offPendCmd : Nat := 0x24

def cmdDone : Word := 1
def statusUnset : Word := 0xffffffff
def cmdSuccess : Word := 0
def cmdFailUnsupported : Word := 1

def rd (pcom : ProcComm) (host : HostPtr → Byte) (off : Nat) : Word :=
  hostRead32 host (pcom.smem + off)

def wr (pcom : ProcComm) (off : Nat) (value : Word) (host : HostPtr → Byte) : HostPtr → Byte :=
  hostWrite32 host (pcom.smem + off) value

theorem rd_wr (pcom : ProcComm) (off : Nat) (value : Word) (host : HostPtr → Byte) :
    pcom.rd (pcom.wr off value host) off = value := hostRead32_hostWrite32 host (pcom.smem + off) value

theorem rd_wr_apart (pcom : ProcComm) {off other : Nat} (value : Word) (host : HostPtr → Byte)
    (apart : other + 4 ≤ off ∨ off + 4 ≤ other) :
    pcom.rd (pcom.wr off value host) other = pcom.rd host other := by
  refine hostRead32_apart (apart.imp (fun below => ?_) fun above => ?_)
  · exact (Nat.add_assoc pcom.smem other 4).trans_le (Nat.add_le_add_left below pcom.smem)
  · exact (Nat.add_assoc pcom.smem off 4).trans_le (Nat.add_le_add_left above pcom.smem)

def bind (pcom : ProcComm) (host : HostPtr → Byte) : HostPtr → Byte :=
  pcom.wr offPendFlag 0 (pcom.wr offAppStatus statusUnset host)

/-- The caller passes no data words, so both are reset. -/
def core0Issue (pcom : ProcComm) (cmd data1 data2 : Word) (host : HostPtr → Byte) :
    HostPtr → Byte :=
  let host := pcom.wr offAppData1 data1 host
  let host := pcom.wr offAppData2 data2 host
  let host := pcom.wr offAppStatus statusUnset host
  let host := pcom.wr offAppCommand cmd host
  let host := pcom.wr offPendCmd cmd host
  pcom.wr offPendFlag 1 host

def commandPending (pcom : ProcComm) (host : HostPtr → Byte) : Bool := pcom.rd host offPendFlag = 1

/-- RESET_MODEM and GET_DEM_STATE. -/
def isSupported (cmd : Word) : Bool := cmd = 0x1 || cmd = 0x10

def statusFor (cmd : Word) : Word := if isSupported cmd then cmdSuccess else cmdFailUnsupported

def core1Service (pcom : ProcComm) (host : HostPtr → Byte) : Bool × (HostPtr → Byte) :=
  if pcom.commandPending host then
    let status := statusFor (pcom.rd host offPendCmd)
    let host := pcom.wr offAppStatus status host
    let host := pcom.wr offAppCommand cmdDone host
    (true, pcom.wr offPendFlag 0 host)
  else (false, host)

/-- Issuing a command leaves the data words the caller passes. -/
theorem core0Issue_data (pcom : ProcComm) (cmd data1 data2 : Word) (host : HostPtr → Byte) :
    pcom.rd (pcom.core0Issue cmd data1 data2 host) offAppData1 = data1 ∧
      pcom.rd (pcom.core0Issue cmd data1 data2 host) offAppData2 = data2 := by
  constructor
  · rw [core0Issue, rd_wr_apart _ _ _ (by decide), rd_wr_apart _ _ _ (by decide),
      rd_wr_apart _ _ _ (by decide), rd_wr_apart _ _ _ (by decide), rd_wr_apart _ _ _ (by decide), rd_wr]
  · rw [core0Issue, rd_wr_apart _ _ _ (by decide), rd_wr_apart _ _ _ (by decide),
      rd_wr_apart _ _ _ (by decide), rd_wr_apart _ _ _ (by decide), rd_wr]

theorem core1Service_idle (pcom : ProcComm) {host : HostPtr → Byte}
    (idle : pcom.commandPending host = false) : pcom.core1Service host = (false, host) := by
  rw [core1Service, if_neg (by rw [idle]; exact Bool.false_ne_true)]

/-- A service step leaves the data words alone. -/
theorem core1Service_data (pcom : ProcComm) (host : HostPtr → Byte) :
    pcom.rd (pcom.core1Service host).2 offAppData1 = pcom.rd host offAppData1 ∧
      pcom.rd (pcom.core1Service host).2 offAppData2 = pcom.rd host offAppData2 := by
  cases pending : pcom.commandPending host with
  | false =>
    rw [core1Service_idle pcom pending]
    exact ⟨rfl, rfl⟩
  | true =>
    rw [core1Service, if_pos pending]
    constructor
    · rw [rd_wr_apart _ _ _ (by decide), rd_wr_apart _ _ _ (by decide), rd_wr_apart _ _ _ (by decide)]
    · rw [rd_wr_apart _ _ _ (by decide), rd_wr_apart _ _ _ (by decide), rd_wr_apart _ _ _ (by decide)]

/-- What the service of a pending command leaves. -/
theorem core1Service_done (pcom : ProcComm) {host : HostPtr → Byte}
    (pending : pcom.commandPending host = true) :
    pcom.rd (pcom.core1Service host).2 offAppCommand = cmdDone ∧
      pcom.rd (pcom.core1Service host).2 offAppStatus = statusFor (pcom.rd host offPendCmd) ∧
      pcom.commandPending (pcom.core1Service host).2 = false := by
  rw [core1Service, if_pos pending]
  refine ⟨?_, ?_, ?_⟩
  · rw [rd_wr_apart _ _ _ (by decide), rd_wr]
  · rw [rd_wr_apart _ _ _ (by decide), rd_wr_apart _ _ _ (by decide), rd_wr]
  · rw [commandPending, rd_wr]
    decide

end ProcComm

end ZeeboLle.Device
