import ZeeboLle.System.BackendReads

/-! The command block shared with the modem, over whole runs of word accesses by Core 0 and
of the service step between slices. Every such step only rewrites host memory. -/
namespace ZeeboLle.System

open Paging Unicorn L4 Device

/-- An access to a word of shared memory, at any alignment, or the service step. -/
inductive SmemEvent where
  | store (off : Fin 0x1ffffd) (value : Word)
  | load (off : Fin 0x1ffffd)
  | service

def smemAddr (off : Nat) : Word := smemBase + BitVec.ofNat 32 off

namespace Fabric

/-- The service step: the modem completes the pending command in shared memory, and the
completion is written to both views of Core 0. -/
def serviceProcComm (fabric : Fabric) : Fabric :=
  if fabric.proccomm.commandPending fabric.core0.host then
    match fabric.proccomm.core1Service fabric.core0.host with
    | (false, host) => fabric.withHost host
    | (true, host) =>
      let status := fabric.proccomm.rd host ProcComm.offAppStatus
      let done := fabric.proccomm.rd host ProcComm.offAppCommand
      let core0 := { fabric.core0 with host }
      let core0 := (core0.ucMemWrite (smemAddr 0x4).toNat (leBytes 4 status.toNat)).2
      let core0 := (core0.ucMemWrite (smemAddr 0x0).toNat (leBytes 4 done.toNat)).2
      let host := (fabric.vtlb.writeU32 core0.host (smemAddr 0x4).toNat status).2
      let host := (fabric.vtlb.writeU32 host (smemAddr 0x0).toNat done).2
      { fabric with core0 := { core0 with host } }
  else fabric

/-- A word load by Core 0. -/
def smemLoad (backend : CoreBackend) (fabric : Fabric) (off : Nat) : Option Nat × Fabric :=
  match backend with
  | .unicorn => fabric.ucLoad 4 (smemAddr off)
  | .dynarmic =>
    let (value, fabric) := memoryRead 4 fabric (smemAddr off)
    (some value, fabric)

def smemStore (backend : CoreBackend) (fabric : Fabric) (off : Nat) (value : Word) : Fabric :=
  match backend with
  | .unicorn => fabric.ucStore 4 (smemAddr off) value.toNat
  | .dynarmic => fabric.memoryWrite32 (smemAddr off) value.toNat

def smemStep (backend : CoreBackend) (fabric : Fabric) : SmemEvent → Fabric
  | .store off value => fabric.smemStore backend off value
  | .load off => (fabric.smemLoad backend off).2
  | .service => fabric.serviceProcComm

def smemRun (backend : CoreBackend) (fabric : Fabric) (events : List SmemEvent) : Fabric :=
  events.foldl (smemStep backend) fabric

end Fabric

/-- What Core 0 has passed: the data words it stored last, and the command it issued with
both of them in place, as long as it has stored to none of the three words since. -/
structure Call where
  data1 : Option Word
  data2 : Option Word
  command : Option (Word × Word × Word)

namespace Call

def none : Call := ⟨.none, .none, .none⟩

/-- Two words overlap. -/
def meets (left right : Nat) : Bool := left < right + 4 && right < left + 4

/-- The value known of a word after a store. -/
def note (known : Option Word) (word off : Nat) (value : Word) : Option Word :=
  if off = word then some value else if meets off word then .none else known

def step (call : Call) : SmemEvent → Call
  | .store off value =>
    { data1 := note call.data1 ProcComm.offAppData1 off value
      data2 := note call.data2 ProcComm.offAppData2 off value
      command :=
        if off.val = ProcComm.offAppCommand then
          match call.data1, call.data2 with
          | some data1, some data2 => some (data1, data2, value)
          | _, _ => .none
        else if meets off ProcComm.offAppCommand || meets off ProcComm.offAppData1 ||
            meets off ProcComm.offAppData2 then .none
        else call.command }
  | .load _ => call
  | .service => call

def run (events : List SmemEvent) : Call := events.foldl step none

end Call

/-- The effect of a step on host memory. -/
def mailboxStep (backend : CoreBackend) (pcom : ProcComm) (host : HostPtr → Byte) :
    SmemEvent → HostPtr → Byte
  | .store off value =>
    match backend with
    | .unicorn =>
      hostWrite32 (if off.val = 0x0 then pcom.core0Issue value 0 0 host else host)
        (pcom.smem + off) value
    | .dynarmic =>
      if off.val = 0x0 then pcom.core0Issue value 0 0 host
      else if off.val = 0x4 then host
      else hostWrite32 host (pcom.smem + off) value
  | .load _ => host
  | .service => (pcom.core1Service host).2

namespace Fabric

/-- Shared memory is one host buffer, known to the engine and not to the lookup table. -/
structure SmemShared (fabric : Fabric) : Prop where
  block : fabric.proccomm = ⟨smemHost⟩
  pages : ∀ page, 0x1f00 ≤ page → page < 0x2100 →
    fabric.core0.pages page = some ⟨.all, .host (smemHost + (page - 0x1f00) * 0x1000)⟩
  table : ∀ page, 0x1f00 ≤ page → page < 0x2100 → fabric.vtlb.entries page = nullptr

theorem boot_smemShared (ram0 ram1 : Nat → Byte) (host : HostPtr → Byte) :
    (boot ram0 ram1 host).SmemShared where
  block := rfl
  pages page lower upper := by
    have inside : page ∈ pageSpan smemBase.toNat smemSize := ⟨lower, upper⟩
    simp only [boot, mappedPages, List.find?_cons, inside, decide_true]
    rfl
  table page lower upper := by
    change (if 0x10000 ≤ page ∧ page < 0x10000 + 0x6000 ∧ page < 0x100000 then _ else _) = _
    rw [if_neg (by omega)]
    rfl

variable {fabric : Fabric}

theorem SmemShared.withHost (shared : fabric.SmemShared) (host : HostPtr → Byte) :
    (fabric.withHost host).SmemShared := ⟨shared.block, shared.pages, shared.table⟩

theorem toNat_smemAddr {off : Nat} (fits : off < 0x200000) : (smemAddr off).toNat = 0x1f00000 + off := by
  rw [smemAddr, BitVec.toNat_add, BitVec.toNat_ofNat]
  change (0x1f00000 + off % 2 ^ 32) % 2 ^ 32 = _
  omega

theorem SmemShared.cell (shared : fabric.SmemShared) {off : Nat} (fits : off < 0x200000) :
    fabric.core0.cell (0x1f00000 + off) = some (.host (smemHost + off)) := by
  have page : (0x1f00000 + off) / 0x1000 = 0x1f00 + off / 0x1000 := by omega
  have place : (0x1f00000 + off) % 0x1000 = off % 0x1000 := by omega
  have whole : (0x1f00 + off / 0x1000 - 0x1f00) * 0x1000 + off % 0x1000 = off := by omega
  rw [Memory.cell, if_pos (by omega), page, shared.pages _ (by omega) (by omega), place]
  simp only [Option.map_some, Nat.add_assoc, whole]

theorem SmemShared.find (shared : fabric.SmemShared) {off : Nat} (fits : off < 0x200000) :
    fabric.vtlb.find (0x1f00000 + off) = none := by
  have page : (0x1f00000 + off) % 0x100000000 / 0x1000 = 0x1f00 + off / 0x1000 := by omega
  have entry : fabric.vtlb.translate (0x1f00000 + off) = nullptr := by
    rw [VtlbLut.translate, page, shared.table _ (by omega) (by omega)]
    rfl
  rw [VtlbLut.find, if_pos entry]

theorem SmemShared.cells (shared : fabric.SmemShared) {off : Nat} (fits : off < 0x1ffffd) :
    fabric.core0.cells (0x1f00000 + off) 4 =
      ((List.range 4).map fun index => smemHost + off + index).map Cell.host := by
  rw [List.map_map]
  refine reach_eq_map fun index below => ?_
  rw [Nat.add_assoc, shared.cell (by omega)]
  exact congrArg (fun ptr => some (Cell.host ptr)) (Nat.add_assoc smemHost off index).symm

theorem SmemShared.backed (shared : fabric.SmemShared) {off : Nat} (fits : off < 0x1ffffd) :
    fabric.core0.backed (0x1f00000 + off) 4 = true := by
  rw [Memory.backed, shared.cells fits]
  rfl

/-- The host API writes a word of shared memory to its buffer. -/
theorem SmemShared.ucMemWrite (shared : fabric.SmemShared) {off : Nat} (fits : off < 0x1ffffd)
    (value : Word) : fabric.core0.ucMemWrite (0x1f00000 + off) (leBytes 4 value.toNat) =
      (.ok, { fabric.core0 with
        host := hostWrite32 fabric.core0.host (smemHost + off) value }) := by
  rw [Memory.ucMemWrite, length_leBytes, if_pos (shared.backed fits), shared.cells fits,
    List.zip_map_left, Memory.withContents_host]
  rfl

/-- The lookup table takes no word of shared memory. -/
theorem SmemShared.write (shared : fabric.SmemShared) {off : Nat} (fits : off < 0x1ffffd)
    (host : HostPtr → Byte) (value : Word) :
    (fabric.vtlb.write host (0x1f00000 + off) (leBytes 4 value.toNat)).2 = host := by
  have missing := shared.find (show off < 0x200000 by omega)
  unfold VtlbLut.find at missing
  split at missing
  · rename_i entry
    rw [leBytes, VtlbLut.write, if_pos entry]
  · cases missing

/-- Shared memory lies apart from every device window. -/
theorem smemAddr_apart {base size : Word} {off : Nat} (fits : off < 0x200000)
    (apart : (smemBase + 0x200000).toNat ≤ base.toNat) : inWindow base size (smemAddr off) = false := by
  have inside : inWindow smemBase 0x200000 (smemAddr off) = true := by
    rw [inWindow, Bool.and_eq_true, decide_eq_true_eq, decide_eq_true_eq, BitVec.le_def,
      BitVec.lt_def, toNat_smemAddr fits]
    constructor
    · change 0x1f00000 ≤ _
      omega
    · change _ < 0x2100000
      omega
  exact inWindow_apart inside (.inl apart)

theorem smemAddr_noDevice {off : Nat} (fits : off < 0x200000) :
    isVic (smemAddr off) = false ∧ isGpt (smemAddr off) = false ∧ isMddi (smemAddr off) = false ∧
      isAdreno (smemAddr off) = false ∧ isKeypad (smemAddr off) = false :=
  ⟨smemAddr_apart fits (by decide), smemAddr_apart fits (by decide), smemAddr_apart fits (by decide),
    smemAddr_apart fits (by decide), smemAddr_apart fits (by decide)⟩

theorem smemAddr_notUart {off : Nat} (fits : off < 0x200000) : isUart (smemAddr off) = false := by
  rw [isUart, smemAddr_apart fits (by decide), smemAddr_apart fits (by decide),
    smemAddr_apart fits (by decide)]
  rfl

theorem smemAddr_notClock {off : Nat} (fits : off < 0x200000) : isClock (smemAddr off) = false :=
  smemAddr_apart fits (by decide)

theorem smemAddr_notDoorbell {off : Nat} (fits : off < 0x200000) :
    isDoorbell (smemAddr off) = false := by
  have base : (msmCsrBase + 0x400).toNat = 0xc0100400 := by decide
  have below : ¬ msmCsrBase + 0x400 ≤ smemAddr off := by
    rw [BitVec.le_def, toNat_smemAddr fits, base]
    omega
  exact Bool.and_eq_false_iff.mpr (.inl (decide_eq_false below))

theorem smemAddr_notRegister {off : Nat} (fits : off < 0x200000) :
    isRegister (smemAddr off) = false := by
  have status : isUartStatus (smemAddr off) = false := by
    by_contra found
    have uart := smemAddr_notUart fits
    rw [uartStatus_isUart (by simpa using found)] at uart
    cases uart
  obtain ⟨vic, gpt, mddi, adreno, _⟩ := smemAddr_noDevice fits
  rw [isRegister, mddi, adreno, vic, gpt, status]
  rfl

theorem smemAddr_eq_iff {off word : Nat} (fits : off < 0x200000) (bound : word < 0x200000) :
    smemAddr off = smemBase + BitVec.ofNat 32 word ↔ off = word := by
  rw [← BitVec.toNat_inj, toNat_smemAddr fits]
  have place := toNat_smemAddr bound
  rw [smemAddr] at place
  rw [place]
  omega

theorem smemAddr_eq_base {off : Nat} (fits : off < 0x200000) : smemAddr off = smemBase ↔ off = 0x0 := by
  have same := smemAddr_eq_iff fits (show 0 < 0x200000 by omega)
  simpa using same

/-- Only the command and the status word are on the list of peripherals. -/
theorem smemAddr_peripheral {off : Nat} (fits : off < 0x200000) :
    isCore0Peripheral (smemAddr off) = (decide (off = 0x0) || decide (off = 0x4)) := by
  have status : (smemAddr off = smemBase + 0x4) ↔ off = 0x4 :=
    smemAddr_eq_iff fits (show 4 < 0x200000 by omega)
  obtain ⟨vic, gpt, mddi, adreno, keypad⟩ := smemAddr_noDevice fits
  simp only [isCore0Peripheral, smemAddr_notClock fits, vic, gpt, smemAddr_notDoorbell fits, mddi,
    adreno, smemAddr_notUart fits, keypad, Bool.false_or, Bool.or_false, smemAddr_eq_base fits,
    status]

/-- A hooked store to shared memory only issues commands. -/
theorem handlePeripheralWrite_smem (fabric : Fabric) {off : Nat} (fits : off < 0x200000)
    (value : Word) : fabric.handlePeripheralWrite (smemAddr off) value =
      if off = 0x0 then
        fabric.withHost (fabric.proccomm.core0Issue value 0 0 fabric.core0.host)
      else fabric := by
  have bus := mmioWrite_firmware fabric.devices.pbus (smemAddr off) value
  obtain ⟨vic, gpt, mddi, adreno, keypad⟩ := smemAddr_noDevice fits
  rw [vic, gpt] at bus
  rw [handlePeripheralWrite]
  cases write : fabric.devices.pbus.mmioWrite .firmware (smemAddr off) value with
  | mk consumed pbus =>
    rw [write] at bus
    obtain rfl : consumed = false := bus
    simp only [smemAddr_notDoorbell fits, smemAddr_eq_base fits, mddi, adreno,
      smemAddr_notUart fits, keypad, Bool.false_eq_true, if_false]

theorem guestByte_smem {off index : Nat} (fits : off + index < 0x200000) :
    guestByte (smemAddr off) index = 0x1f00000 + (off + index) := by
  rw [guestByte, toNat_smemAddr (by omega)]
  omega

theorem SmemShared.faultIn (shared : fabric.SmemShared) {off : Nat} (fits : off < 0x1ffffd)
    (load : Bool) : fabric.faultIn load (smemAddr off) 4 = fabric :=
  faultIn_present (by omega) load fun index below => by
    rw [guestByte_smem (by omega), shared.cell (by omega)]
    rfl

theorem SmemShared.permits (shared : fabric.SmemShared) {off : Nat} (fits : off < 0x1ffffd)
    {allowed : Prot → Bool} (all : allowed .all = true) :
    permits fabric.core0 allowed (smemAddr off) 4 = true := by
  refine List.all_eq_true.mpr fun index member => ?_
  have below := List.mem_range.mp member
  rw [guestByte_smem (by omega), shared.pages _ (by omega) (by omega)]
  exact all

theorem SmemShared.guestWrites (shared : fabric.SmemShared) {off : Nat} (fits : off < 0x1ffffd)
    (value : Nat) : guestWrites fabric.core0 (smemAddr off) (leBytes 4 value) =
      (((List.range 4).map fun index => smemHost + off + index).zip (leBytes 4 value)).map
        (Prod.map Cell.host id) := by
  have cell : ∀ index, index < 4 → fabric.core0.cell (guestByte (smemAddr off) index) =
      some (.host (smemHost + off + index)) := fun index below => by
    rw [guestByte_smem (by omega), shared.cell (by omega)]
    exact congrArg (fun ptr => some (Cell.host ptr)) (Nat.add_assoc smemHost off index).symm
  simp [Fabric.guestWrites, leBytes, List.range_succ, cell]

theorem SmemShared.ucStore (shared : fabric.SmemShared) {off : Nat} (fits : off < 0x1ffffd)
    (value : Word) : fabric.ucStore 4 (smemAddr off) value.toNat =
      fabric.withHost (hostWrite32 (if off = 0x0 then
        (⟨smemHost⟩ : ProcComm).core0Issue value 0 0 fabric.core0.host else fabric.core0.host)
          (smemHost + off) value) := by
  have word : BitVec.ofNat 32 value.toNat = value := by simp
  rw [Fabric.ucStore, word, handlePeripheralWrite_smem fabric (by omega), shared.block]
  by_cases command : off = 0x0
  · rw [if_pos command, if_pos command]
    have issued := shared.withHost ((⟨smemHost⟩ : ProcComm).core0Issue value 0 0 fabric.core0.host)
    rw [issued.faultIn fits]
    rw [if_pos (issued.permits fits rfl)]
    rw [issued.guestWrites fits, Memory.withContents_host]
    rfl
  · rw [if_neg command, if_neg command, shared.faultIn fits]
    rw [if_pos (shared.permits fits rfl)]
    rw [shared.guestWrites fits, Memory.withContents_host]
    rfl

theorem SmemShared.memoryWrite32 (shared : fabric.SmemShared) {off : Nat} (fits : off < 0x1ffffd)
    (value : Word) : fabric.memoryWrite32 (smemAddr off) value.toNat =
      fabric.withHost (if off = 0x0 then
          (⟨smemHost⟩ : ProcComm).core0Issue value 0 0 fabric.core0.host
        else if off = 0x4 then fabric.core0.host
        else hostWrite32 fabric.core0.host (smemHost + off) value) := by
  have word : BitVec.ofNat 32 value.toNat = value := by simp
  rw [Fabric.memoryWrite32, smemAddr_peripheral (by omega), word,
    handlePeripheralWrite_smem fabric (by omega), shared.block]
  by_cases command : off = 0x0
  · simp only [command, decide_true, Bool.true_or, if_true]
  · by_cases status : off = 0x4
    · simp only [status, decide_true, Bool.or_true, if_true, if_neg (show ¬ 0x4 = 0x0 by omega)]
      rfl
    · simp only [command, status, decide_false, Bool.or_false, Bool.false_eq_true, if_false]
      have table := shared.write fits fabric.core0.host value
      have engine := shared.ucMemWrite fits value
      rw [write32, bridgeWrite, toNat_smemAddr (by omega)]
      simp only [table, engine]
      rfl

/-- The interpreter loads what the buffer holds. -/
theorem SmemShared.ucLoad (shared : fabric.SmemShared) {off : Nat} (fits : off < 0x1ffffd) :
    fabric.ucLoad 4 (smemAddr off) =
      (some (hostRead32 fabric.core0.host (smemHost + off)).toNat, fabric) := by
  have plain := smemAddr_notRegister (show off < 0x200000 by omega)
  have hook : fabric.c0MemReadHook (smemAddr off) 4 = fabric := by
    rw [c0MemReadHook, smemAddr_notClock (by omega), if_neg Bool.false_ne_true]
    change (if _ then _ else if isRegister (smemAddr off) = true then _ else _) = _
    rw [plain, if_neg Bool.false_ne_true, ite_self]
  have backed : fabric.core0.backed (smemAddr off).toNat 4 = true := by
    rw [toNat_smemAddr (by omega), shared.backed fits]
  have bytes : guestBytes fabric.core0 (smemAddr off) 4 =
      (List.range 4).map fun index => fabric.core0.host (smemHost + off + index) := by
    rw [guestBytes_backed backed, toNat_smemAddr (by omega), shared.cells fits, List.map_map,
      List.map_map]
    rfl
  have small : leValue ((List.range 4).map fun index => fabric.core0.host (smemHost + off + index)) <
      2 ^ 32 := by
    have bound := leValue_lt ((List.range 4).map fun index => fabric.core0.host (smemHost + off + index))
    rwa [List.length_map, List.length_range] at bound
  rw [ucLoad_eq, hook, shared.faultIn fits, if_pos (shared.permits fits rfl), bytes, hostRead32,
    BitVec.toNat_ofNat, Nat.mod_eq_of_lt small]

/-- The recompiler loads the command and the status word from the lookup table, which does
not have them. -/
theorem SmemShared.memoryRead (shared : fabric.SmemShared) {off : Nat} (fits : off < 0x1ffffd)
    (control : off = 0x0 ∨ off = 0x4) : memoryRead 4 fabric (smemAddr off) = (0, fabric) := by
  have peripheral : isCore0Peripheral (smemAddr off) = true := by
    rw [smemAddr_peripheral (by omega)]
    simpa using control
  have missing := shared.find (show off < 0x200000 by omega)
  have table : fabric.vtlb.cells (0x1f00000 + off) 4 = [] := by
    rw [VtlbLut.cells, reach, missing]
  rw [memoryRead_neutral (.inr (.inr rfl)) peripheral (smemAddr_notRegister (by omega)), listed,
    VtlbLut.read_eq, toNat_smemAddr (by omega), table]
  rfl

/-- A word of shared memory is written over itself. -/
theorem SmemShared.ucMemWrite_rd (shared : fabric.SmemShared) (host : HostPtr → Byte) {off : Nat}
    (fits : off < 0x1ffffd) : ({ fabric.core0 with host } : Memory).ucMemWrite (smemAddr off).toNat
      (leBytes 4 ((⟨smemHost⟩ : ProcComm).rd host off).toNat) = (.ok, { fabric.core0 with host }) := by
  have same : hostWrite32 host (smemHost + off) ((⟨smemHost⟩ : ProcComm).rd host off) = host :=
    hostWrite32_self host (smemHost + off)
  have written := (shared.withHost host).ucMemWrite fits ((⟨smemHost⟩ : ProcComm).rd host off)
  rw [toNat_smemAddr (by omega)]
  refine written.trans ?_
  change (UcErr.ok, ({ fabric.core0 with host := hostWrite32 host _ _ } : Memory)) = _
  rw [same]

theorem SmemShared.writeU32 (shared : fabric.SmemShared) (host : HostPtr → Byte) {off : Nat}
    (fits : off < 0x1ffffd) (value : Word) :
    (fabric.vtlb.writeU32 host (smemAddr off).toNat value).2 = host := by
  rw [VtlbLut.writeU32, toNat_smemAddr (by omega)]
  exact shared.write fits host value

/-- Publishing the completion changes nothing: shared memory already holds it. -/
theorem SmemShared.service (shared : fabric.SmemShared) : fabric.serviceProcComm =
    fabric.withHost ((⟨smemHost⟩ : ProcComm).core1Service fabric.core0.host).2 := by
  rw [serviceProcComm, shared.block]
  cases pending : (⟨smemHost⟩ : ProcComm).commandPending fabric.core0.host with
  | false =>
    rw [ProcComm.core1Service_idle _ pending]
    rfl
  | true =>
    have served : ((⟨smemHost⟩ : ProcComm).core1Service fabric.core0.host).1 = true := by
      rw [ProcComm.core1Service, if_pos pending]
    rw [if_pos rfl]
    generalize (⟨smemHost⟩ : ProcComm).core1Service fabric.core0.host = outcome at served
    obtain ⟨flag, host⟩ := outcome
    obtain rfl : flag = true := served
    have status : ({ fabric.core0 with host } : Memory).ucMemWrite (smemAddr 0x4).toNat
        (leBytes 4 ((⟨smemHost⟩ : ProcComm).rd host ProcComm.offAppStatus).toNat) =
          (.ok, { fabric.core0 with host }) := shared.ucMemWrite_rd host (by omega)
    have done : ({ fabric.core0 with host } : Memory).ucMemWrite (smemAddr 0x0).toNat
        (leBytes 4 ((⟨smemHost⟩ : ProcComm).rd host ProcComm.offAppCommand).toNat) =
          (.ok, { fabric.core0 with host }) := shared.ucMemWrite_rd host (by omega)
    simp only [status, done, shared.writeU32 host (show 0x4 < 0x1ffffd by omega),
      shared.writeU32 host (show 0x0 < 0x1ffffd by omega)]
    rw [← shared.block]
    rfl

/-- A step of Core 0 or of the modem rewrites host memory and nothing else. -/
theorem SmemShared.step (shared : fabric.SmemShared) (backend : CoreBackend) (event : SmemEvent) :
    fabric.smemStep backend event =
      fabric.withHost (mailboxStep backend ⟨smemHost⟩ fabric.core0.host event) := by
  cases event with
  | service => exact shared.service
  | store off value =>
    cases backend with
    | unicorn => exact shared.ucStore off.isLt value
    | dynarmic => exact shared.memoryWrite32 off.isLt value
  | load off =>
    cases backend with
    | unicorn =>
      change (fabric.ucLoad 4 (smemAddr off)).2 = fabric
      rw [shared.ucLoad off.isLt]
    | dynarmic =>
      change (Fabric.memoryRead 4 fabric (smemAddr off)).2 = fabric
      cases peripheral : isCore0Peripheral (smemAddr off) with
      | false => rw [memoryRead_plain peripheral]
      | true =>
        have fits := off.isLt
        rw [smemAddr_peripheral (by omega)] at peripheral
        rw [shared.memoryRead off.isLt (by simpa using peripheral)]

/-- A run of the fabric is a run of its host memory. -/
theorem SmemShared.run (shared : fabric.SmemShared) (backend : CoreBackend)
    (events : List SmemEvent) : fabric.smemRun backend events =
      fabric.withHost (events.foldl (mailboxStep backend ⟨smemHost⟩) fabric.core0.host) := by
  induction events generalizing fabric with
  | nil => rfl
  | cons event events ih =>
    rw [smemRun, List.foldl_cons, shared.step]
    exact ih (shared.withHost _)

end Fabric

open Fabric (smemHost)

section Calls

variable {backend : CoreBackend} {pcom : ProcComm} {host : HostPtr → Byte} {call : Call}

/-- Whatever the caller passed, the data words of a call are zero. -/
def Cleared (pcom : ProcComm) (call : Call) (host : HostPtr → Byte) : Prop :=
  call.command.isSome = true →
    pcom.rd host ProcComm.offAppData1 = 0 ∧ pcom.rd host ProcComm.offAppData2 = 0

theorem meets_false {left right : Nat} (apart : Call.meets left right = false) :
    right + 4 ≤ left ∨ left + 4 ≤ right := by
  simp only [Call.meets, Bool.and_eq_false_iff, decide_eq_false_iff_not] at apart
  omega

/-- A store that meets no word of a call leaves its data. -/
theorem rd_store {off word : Nat} (apart : Call.meets off word = false) (value : Word) :
    pcom.rd (hostWrite32 host (pcom.smem + off) value) word = pcom.rd host word :=
  pcom.rd_wr_apart value host (by have := meets_false apart; omega)

theorem Cleared.store (cleared : Cleared pcom call host) (off : Fin 0x1ffffd) (value : Word) :
    Cleared pcom (call.step (.store off value)) (mailboxStep backend pcom host (.store off value)) := by
  intro issued
  by_cases command : off.val = 0x0
  · obtain ⟨first, second⟩ := pcom.core0Issue_data value 0 0 host
    cases backend with
    | unicorn =>
      simp only [mailboxStep, if_pos command]
      rw [rd_store (by rw [command]; rfl), rd_store (by rw [command]; rfl)]
      exact ⟨first, second⟩
    | dynarmic =>
      simp only [mailboxStep, if_pos command]
      exact ⟨first, second⟩
  · have later : (call.step (.store off value)).command =
        if Call.meets off ProcComm.offAppCommand || Call.meets off ProcComm.offAppData1 ||
            Call.meets off ProcComm.offAppData2 then none else call.command := if_neg command
    rw [later] at issued
    split at issued
    · cases issued
    · rename_i apart
      simp only [Bool.or_eq_true, not_or, Bool.not_eq_true] at apart
      have kept := cleared issued
      cases backend with
      | unicorn =>
        simp only [mailboxStep, if_neg command]
        rw [rd_store apart.1.2, rd_store apart.2]
        exact kept
      | dynarmic =>
        simp only [mailboxStep, if_neg command]
        split
        · exact kept
        · rw [rd_store apart.1.2, rd_store apart.2]
          exact kept

theorem Cleared.step (cleared : Cleared pcom call host) (event : SmemEvent) :
    Cleared pcom (call.step event) (mailboxStep backend pcom host event) := by
  cases event with
  | store off value => exact cleared.store off value
  | load off => exact cleared
  | service =>
    intro issued
    obtain ⟨first, second⟩ := pcom.core1Service_data host
    simp only [mailboxStep, first, second]
    exact cleared issued

theorem cleared_run (backend : CoreBackend) (pcom : ProcComm) (host : HostPtr → Byte)
    (events : List SmemEvent) :
    Cleared pcom (Call.run events) (events.foldl (mailboxStep backend pcom) host) := by
  induction events using List.reverseRecOn with
  | nil =>
    intro issued
    cases issued
  | append_singleton events event ih =>
    rw [Call.run, List.foldl_append, List.foldl_append]
    exact ih.step event

/-- Core 0 stores to neither word of the completion, nor to the flag of a pending command. -/
def Quiet : SmemEvent → Prop
  | .store off _ => Call.meets off ProcComm.offAppCommand = false ∧
      Call.meets off ProcComm.offAppStatus = false ∧ Call.meets off ProcComm.offPendFlag = false
  | .load _ => True
  | .service => True

/-- A completion that Core 0 can load. -/
structure Completed (pcom : ProcComm) (cmd : Word) (host : HostPtr → Byte) : Prop where
  done : pcom.rd host ProcComm.offAppCommand = ProcComm.cmdDone
  status : pcom.rd host ProcComm.offAppStatus = ProcComm.statusFor cmd
  idle : pcom.commandPending host = false

theorem Completed.store {cmd : Word} (completed : Completed pcom cmd host) {off : Fin 0x1ffffd}
    {value : Word} (quiet : Quiet (.store off value)) :
    Completed pcom cmd (hostWrite32 host (pcom.smem + off) value) where
  done := by rw [rd_store quiet.1, completed.done]
  status := by rw [rd_store quiet.2.1, completed.status]
  idle := by
    rw [ProcComm.commandPending, rd_store quiet.2.2]
    exact completed.idle

theorem Completed.step {cmd : Word} (completed : Completed pcom cmd host) {event : SmemEvent}
    (quiet : Quiet event) : Completed pcom cmd (mailboxStep backend pcom host event) := by
  cases event with
  | load off => exact completed
  | service =>
    rw [mailboxStep, pcom.core1Service_idle completed.idle]
    exact completed
  | store off value =>
    have outside : ¬ off.val = 0x0 := by
      intro command
      have apart := meets_false quiet.1
      simp only [ProcComm.offAppCommand] at apart
      omega
    cases backend with
    | unicorn =>
      simp only [mailboxStep, if_neg outside]
      exact completed.store quiet
    | dynarmic =>
      simp only [mailboxStep, if_neg outside]
      split
      · exact completed
      · exact completed.store quiet

theorem Completed.run {cmd : Word} (completed : Completed pcom cmd host) {later : List SmemEvent}
    (quiet : ∀ event ∈ later, Quiet event) :
    Completed pcom cmd (later.foldl (mailboxStep backend pcom) host) := by
  induction later generalizing host with
  | nil => exact completed
  | cons event later ih =>
    exact ih (completed.step (quiet event (by simp))) fun other member =>
      quiet other (List.mem_cons_of_mem _ member)

end Calls

/-- The service step completes this command. -/
def Fabric.Completes (fabric : Fabric) (cmd : Word) : Prop :=
  fabric.proccomm.commandPending fabric.core0.host = true ∧
    fabric.proccomm.rd fabric.core0.host ProcComm.offPendCmd = cmd

/-- A service step of the run that completes a call Core 0 made. -/
structure Completion (backend : CoreBackend) (start : Fabric) (events before after : List SmemEvent)
    (data1 data2 cmd : Word) : Prop where
  split : events = before ++ .service :: after
  call : (Call.run before).command = some (data1, data2, cmd)
  completes : (start.smemRun backend before).Completes cmd

/-- The modem sees the arguments, and Core 0 the completion however late it loads it. -/
structure Delivered (backend : CoreBackend) (fabric : Fabric) (data1 data2 cmd : Word) : Prop where
  data1 : fabric.proccomm.rd fabric.core0.host ProcComm.offAppData1 = data1
  data2 : fabric.proccomm.rd fabric.core0.host ProcComm.offAppData2 = data2
  loads : ∀ later, (∀ event ∈ later, Quiet event) →
    ((fabric.smemRun backend later).smemLoad backend ProcComm.offAppCommand).1 =
        some ProcComm.cmdDone.toNat ∧
      ((fabric.smemRun backend later).smemLoad backend ProcComm.offAppStatus).1 =
        some (ProcComm.statusFor cmd).toNat

/-- Every call that is completed in the run is delivered. -/
def CallsReach (backend : CoreBackend) (start : Fabric) (events : List SmemEvent) : Prop :=
  ∀ before after data1 data2 cmd, Completion backend start events before after data1 data2 cmd →
    Delivered backend (start.smemRun backend (before ++ [.service])) data1 data2 cmd

namespace Completion

variable {backend : CoreBackend} {start : Fabric} {events before after : List SmemEvent}
  {data1 data2 cmd : Word}

/-- The modem finds both data words zero. -/
theorem cleared (completion : Completion backend start events before after data1 data2 cmd)
    (shared : start.SmemShared) :
    let fabric := start.smemRun backend (before ++ [.service])
    fabric.proccomm.rd fabric.core0.host ProcComm.offAppData1 = 0 ∧
      fabric.proccomm.rd fabric.core0.host ProcComm.offAppData2 = 0 := by
  have zero := cleared_run backend ⟨smemHost⟩ start.core0.host (before ++ [.service])
  have issued : (Call.run (before ++ [.service])).command = some (data1, data2, cmd) := by
    rw [Call.run, List.foldl_append]
    exact completion.call
  rw [shared.run]
  change start.proccomm.rd _ _ = 0 ∧ start.proccomm.rd _ _ = 0
  rw [shared.block]
  exact zero (by rw [issued]; rfl)

/-- What the completing service step leaves in shared memory. -/
theorem completed (completion : Completion backend start events before after data1 data2 cmd)
    (shared : start.SmemShared) :
    Completed ⟨smemHost⟩ cmd (start.smemRun backend (before ++ [.service])).core0.host := by
  obtain ⟨pending, issued⟩ := completion.completes
  rw [shared.run] at pending issued
  change start.proccomm.commandPending (before.foldl _ _) = true at pending
  change start.proccomm.rd (before.foldl _ _) _ = cmd at issued
  rw [shared.block] at pending issued
  obtain ⟨done, status, idle⟩ := (⟨smemHost⟩ : ProcComm).core1Service_done pending
  rw [issued] at status
  have host : (start.smemRun backend (before ++ [.service])).core0.host =
      ((⟨smemHost⟩ : ProcComm).core1Service
        (before.foldl (mailboxStep backend ⟨smemHost⟩) start.core0.host)).2 := by
    rw [shared.run, List.foldl_append]
    rfl
  rw [host]
  exact ⟨done, status, idle⟩

end Completion

/-- The interpreter loads a completion however late. -/
theorem Completed.loads {fabric : Fabric} {cmd : Word} (shared : fabric.SmemShared)
    (completed : Completed ⟨smemHost⟩ cmd fabric.core0.host) {later : List SmemEvent}
    (quiet : ∀ event ∈ later, Quiet event) :
    ((fabric.smemRun .unicorn later).smemLoad .unicorn ProcComm.offAppCommand).1 =
        some ProcComm.cmdDone.toNat ∧
      ((fabric.smemRun .unicorn later).smemLoad .unicorn ProcComm.offAppStatus).1 =
        some (ProcComm.statusFor cmd).toNat := by
  have final : Completed ⟨smemHost⟩ cmd
      (later.foldl (mailboxStep .unicorn ⟨smemHost⟩) fabric.core0.host) := completed.run quiet
  rw [shared.run]
  have still := shared.withHost (later.foldl (mailboxStep .unicorn ⟨smemHost⟩) fabric.core0.host)
  have word : ∀ off, off < 0x1ffffd →
      ((fabric.withHost (later.foldl (mailboxStep .unicorn ⟨smemHost⟩) fabric.core0.host)).smemLoad
        .unicorn off).1 = some ((⟨smemHost⟩ : ProcComm).rd
          (later.foldl (mailboxStep .unicorn ⟨smemHost⟩) fabric.core0.host) off).toNat := by
    intro off fits
    rw [Fabric.smemLoad, still.ucLoad fits]
    rfl
  rw [word _ (by decide), word _ (by decide), final.done, final.status]
  exact ⟨rfl, rfl⟩

/-- Calls reach the other side exactly on the interpreter with both arguments zero: issuing a
command resets the data words it should carry, and the recompiler loads the completion from a
table without shared memory. -/
theorem callsReach_iff (ram0 ram1 : Nat → Byte) (host : HostPtr → Byte) (backend : CoreBackend)
    (events : List SmemEvent) :
    CallsReach backend (Fabric.boot ram0 ram1 host) events ↔
      ∀ before after data1 data2 cmd,
        Completion backend (Fabric.boot ram0 ram1 host) events before after data1 data2 cmd →
          backend = .unicorn ∧ data1 = 0 ∧ data2 = 0 := by
  have shared := Fabric.boot_smemShared ram0 ram1 host
  constructor
  · intro reach before after data1 data2 cmd completion
    have delivered := reach before after data1 data2 cmd completion
    obtain ⟨first, second⟩ := completion.cleared shared
    refine ⟨?_, delivered.data1.symm.trans first, delivered.data2.symm.trans second⟩
    cases backend with
    | unicorn => rfl
    | dynarmic =>
      -- the load of the command word gives zero, not the completion
      have load := (delivered.loads [] (by simp)).1
      have later : (Fabric.smemRun .dynarmic (Fabric.boot ram0 ram1 host)
          (before ++ [.service])).SmemShared := by
        rw [shared.run]
        exact shared.withHost _
      change some (Fabric.memoryRead 4 _ (smemAddr 0x0)).1 = _ at load
      rw [Fabric.smemRun, List.foldl_nil, later.memoryRead (by omega) (.inl rfl)] at load
      cases load
  · intro met before after data1 data2 cmd completion
    obtain ⟨rfl, rfl, rfl⟩ := met before after data1 data2 cmd completion
    obtain ⟨first, second⟩ := completion.cleared shared
    have later : (Fabric.smemRun .unicorn (Fabric.boot ram0 ram1 host)
        (before ++ [.service])).SmemShared := by
      rw [shared.run]
      exact shared.withHost _
    exact ⟨first, second, fun _ quiet => (completion.completed shared).loads later quiet⟩

/-- A call that asks for the modem's state with one argument. -/
def askWithArgument : List SmemEvent := [.store 0x8 5, .store 0xc 0, .store 0x0 0x10, .service]

theorem not_callsReach_argument : ¬ CallsReach .unicorn
    (Fabric.boot (fun _ => 0) (fun _ => 0) fun _ => 0) askWithArgument := by
  intro reach
  have shared := Fabric.boot_smemShared (fun _ => 0) (fun _ => 0) fun _ => 0
  have completes : ((Fabric.boot (fun _ => 0) (fun _ => 0) fun _ => 0).smemRun .unicorn
      [.store 0x8 5, .store 0xc 0, .store 0x0 0x10]).Completes 0x10 := by
    rw [shared.run, Fabric.Completes]
    decide +kernel
  have completion : Completion .unicorn (Fabric.boot (fun _ => 0) (fun _ => 0) fun _ => 0)
      askWithArgument [.store 0x8 5, .store 0xc 0, .store 0x0 0x10] [] 5 0 0x10 :=
    ⟨rfl, by decide, completes⟩
  have zero := (completion.cleared shared).1
  rw [(reach _ _ _ _ _ completion).data1] at zero
  cases zero

end ZeeboLle.System
