import ZeeboLle.System.Fabric

/-! Loads on the two backends. Both read the same registers, so they leave the devices in
the same state; they part where the interpreter reads the memory behind an address and the
recompiler the lookup table. -/
namespace ZeeboLle.System

open Paging Unicorn L4 Device

namespace Fabric

variable {fabric : Fabric} {size : Nat} {addr : Word}

/-- A load obtains the same value on both backends and leaves the same devices. -/
def SameOnBackends (fabric : Fabric) (size : Nat) (addr : Word) : Prop :=
  (fabric.ucLoad size addr).1 = some (memoryRead size fabric addr).1 ∧
    (fabric.ucLoad size addr).2.devices = (memoryRead size fabric addr).2.devices

/-- The bytes behind an address; pages mapped on demand count as mapped. -/
def behind (fabric : Fabric) (size : Nat) (addr : Word) : List Byte :=
  guestBytes (fabric.faultIn true addr size).core0 addr size

/-- What the lookup table holds for an access, zero from its first missing page on. -/
def listed (fabric : Fabric) (size : Nat) (addr : Word) : List Byte :=
  (fabric.vtlb.read fabric.core0.host addr.toNat size).2

/-- What stays of a value in the cells of an access; of two bytes that share a cell the
later one. -/
def settled (fabric : Fabric) (size : Nat) (addr value : Word) : List Byte :=
  let cells := fabric.core0.cells addr.toNat size
  cells.map (writeAll (fun _ => 0) (cells.zip (leBytes size value.toNat)))

/-- When a load does not depend on the backend. A register is read alike if the memory
behind it is mapped, in cells of its own. Elsewhere the memory must hold what the lookup
table does; outside the device windows it is enough that either covers the access. -/
def ReadsAlike (fabric : Fabric) (size : Nat) (addr : Word) : Prop :=
  permits fabric.core0 Prot.read addr size = true ∧
    match (fabric.devices.readRegister addr).1 with
    | some value =>
      (if fabric.core0.backed addr.toNat size then fabric.settled size addr value
        else fabric.behind size addr) = leBytes size value.toNat
    | none =>
      if isClock addr && fabric.core0.backed addr.toNat size then
        fabric.settled size addr fabric.clock = fabric.listed size addr
      else if isCore0Peripheral addr then fabric.behind size addr = fabric.listed size addr
      else fabric.core0.backed addr.toNat size = true ∨ fabric.vtlb.covers addr.toNat size = true ∨
        fabric.behind size addr = fabric.listed size addr

/-- Windows that do not overlap share no address. -/
theorem inWindow_apart {base size other room : Word} (inside : inWindow base size addr = true)
    (apart : (base + size).toNat ≤ other.toNat ∨ (other + room).toNat ≤ base.toNat) :
    inWindow other room addr = false := by
  by_contra both
  simp only [inWindow, Bool.not_eq_false, Bool.and_eq_true, decide_eq_true_eq, BitVec.le_def,
    BitVec.lt_def] at inside both
  omega

theorem vicOffset_firmware (addr : Word) : (BusLayout.firmware.vicOffset addr).isSome = isVic addr := by
  rw [BusLayout.vicOffset, isVic, inWindow, ← Bool.decide_and, Bool.eq_iff_iff, decide_eq_true_eq]
  exact Option.isSome_ite

theorem gptOffset_firmware (addr : Word) : (BusLayout.firmware.gptOffset addr).isSome = isGpt addr := by
  rw [BusLayout.gptOffset, isGpt, inWindow, ← Bool.decide_and, Bool.eq_iff_iff, decide_eq_true_eq]
  exact Option.isSome_ite

theorem mmioRead_firmware (pbus : PeripheralBus) (addr : Word) :
    (pbus.mmioRead .firmware addr).1.isSome = (isVic addr || isGpt addr) := by
  rw [← vicOffset_firmware, ← gptOffset_firmware, PeripheralBus.mmioRead]
  cases BusLayout.firmware.vicOffset addr with
  | some offset => rfl
  | none =>
    cases BusLayout.firmware.gptOffset addr with
    | some offset => rfl
    | none => rfl

theorem mmioWrite_firmware (pbus : PeripheralBus) (addr value : Word) :
    (pbus.mmioWrite .firmware addr value).1 = (isVic addr || isGpt addr) := by
  rw [← vicOffset_firmware, ← gptOffset_firmware, PeripheralBus.mmioWrite]
  cases BusLayout.firmware.vicOffset addr with
  | some offset => rfl
  | none =>
    cases BusLayout.firmware.gptOffset addr with
    | some offset => rfl
    | none => rfl

/-- The registers both backends route to the models. -/
def isRegister (addr : Word) : Bool :=
  isMddi addr || isAdreno addr || isVic addr || isGpt addr || isUartStatus addr

theorem readRegister_isSome (devices : Devices) (addr : Word) :
    (devices.readRegister addr).1.isSome = isRegister addr := by
  have bus := mmioRead_firmware devices.pbus addr
  unfold Devices.readRegister isRegister
  cases read : devices.pbus.mmioRead .firmware addr with
  | mk value pbus =>
    rw [read] at bus
    cases value with
    | some value =>
      rw [Option.isSome_some] at bus
      simp only [Option.isSome_some]
      cases vic : isVic addr <;> cases gpt : isGpt addr <;> simp_all
    | none =>
      rw [Option.isSome_none] at bus
      cases vic : isVic addr <;> cases gpt : isGpt addr <;> simp_all
      cases isUartStatus addr <;> cases isMddi addr <;> cases isAdreno addr <;> rfl

theorem uartStatus_isUart (status : isUartStatus addr = true) : isUart addr = true := by
  unfold isUartStatus uartOf at status
  unfold isUart
  by_cases first : inWindow uart1Base uartSize addr = true
  · simp [first]
  · by_cases second : inWindow uart2Base uartSize addr = true
    · simp [second]
    · have third : addr = uart3Base + 0x8 := by
        simp only [first, second, Bool.false_eq_true, if_false, Bool.and_eq_true,
          decide_eq_true_eq] at status
        have offset := status.2
        bv_omega
      subst third
      decide

theorem register_peripheral (register : isRegister addr = true) : isCore0Peripheral addr = true := by
  unfold isRegister at register
  unfold isCore0Peripheral
  simp only [Bool.or_eq_true] at register ⊢
  rcases register with (((mddi | adreno) | vic) | gpt) | status
  · simp [mddi]
  · simp [adreno]
  · simp [vic]
  · simp [gpt]
  · simp [uartStatus_isUart status]

theorem clock_not_register (clock : isClock addr = true) : isRegister addr = false := by
  have mddi : isMddi addr = false := inWindow_apart clock (by decide)
  have adreno : isAdreno addr = false := inWindow_apart clock (by decide)
  have vic : isVic addr = false := inWindow_apart clock (by decide)
  have gpt : isGpt addr = false := inWindow_apart clock (by decide)
  have uart : isUart addr = false := by
    have first : inWindow uart1Base uartSize addr = false := inWindow_apart clock (by decide)
    have second : inWindow uart2Base uartSize addr = false := inWindow_apart clock (by decide)
    have third : inWindow uart3Base uartSize addr = false := inWindow_apart clock (by decide)
    rw [isUart, first, second, third]
    rfl
  have status : isUartStatus addr = false := by
    by_contra found
    rw [uartStatus_isUart (by simpa using found)] at uart
    cases uart
  rw [isRegister, mddi, adreno, vic, gpt, status]
  rfl

/-- The value the recompiler obtains for a register. -/
theorem memoryRead_register (legal : size = 1 ∨ size = 2 ∨ size = 4) {value : Word} {devices : Devices}
    (read : fabric.devices.readRegister addr = (some value, devices)) :
    memoryRead size fabric addr =
      (leValue (leBytes size value.toNat), { fabric with devices }) := by
  have register : isRegister addr = true := by
    rw [← readRegister_isSome fabric.devices, read]
    rfl
  have proper : ¬ (size ≠ 4 ∧ size ≠ 2 ∧ size ≠ 1) := by omega
  rw [memoryRead, if_pos (register_peripheral register), handlePeripheralRead, if_neg proper, read,
    leValue_leBytes]

/-- Elsewhere in the device windows it reads the lookup table. -/
theorem memoryRead_neutral (legal : size = 1 ∨ size = 2 ∨ size = 4)
    (peripheral : isCore0Peripheral addr = true) (plain : isRegister addr = false) :
    memoryRead size fabric addr = (leValue (fabric.listed size addr), fabric) := by
  have read : (fabric.devices.readRegister addr).1 = none := by
    rw [← Option.not_isSome_iff_eq_none, readRegister_isSome, plain]
    simp
  have proper : ¬ (size ≠ 4 ∧ size ≠ 2 ∧ size ≠ 1) := by omega
  rw [memoryRead, if_pos peripheral, handlePeripheralRead, if_neg proper]
  cases whole : fabric.devices.readRegister addr with
  | mk value devices =>
    obtain rfl : value = none := by rw [whole] at read; exact read
    have four := fabric.vtlb.length_read fabric.core0.host addr.toNat 4
    have small : leValue (fabric.vtlb.read fabric.core0.host addr.toNat 4).2 < 2 ^ 32 := by
      have bound := leValue_lt (fabric.vtlb.read fabric.core0.host addr.toNat 4).2
      rwa [four] at bound
    have start : (fabric.vtlb.read fabric.core0.host addr.toNat 4).2.take size =
        fabric.listed size addr := by
      have split : size + (4 - size) = 4 := by omega
      have front := fabric.vtlb.read_take fabric.core0.host addr.toNat size (4 - size)
      rwa [split] at front
    simp only [VtlbLut.readU32]
    rw [BitVec.toNat_ofNat, Nat.mod_eq_of_lt small, leValue_mod, start]

/-- Outside the windows it reads what covers the access. -/
theorem memoryRead_plain (plain : isCore0Peripheral addr = false) :
    memoryRead size fabric addr =
      (if fabric.vtlb.covers addr.toNat size = false ∧ fabric.core0.backed addr.toNat size = true then
        leValue ((fabric.core0.cells addr.toNat size).map fabric.core0.contents)
      else leValue (fabric.listed size addr), fabric) := by
  rw [memoryRead, plain, if_neg Bool.false_ne_true, bridgeRead, listed, VtlbLut.read_eq,
    Memory.ucMemRead]
  cases covers : fabric.vtlb.covers addr.toNat size with
  | true => rfl
  | false =>
    cases backed : fabric.core0.backed addr.toNat size with
    | true => rfl
    | false => rfl

/-- A page table after pages were mapped on demand. -/
def Grown (before after : PageTable Prot Backing) : Prop :=
  ∀ page, after page = before page ∨ (before page = none ∧ after page = some ⟨.all, .ram⟩)

theorem Grown.refl (pages : PageTable Prot Backing) : Grown pages pages := fun _ => .inl rfl

theorem Grown.trans {first second third : PageTable Prot Backing} (early : Grown first second)
    (late : Grown second third) : Grown first third := by
  intro page
  rcases late page with kept | ⟨missing, fresh⟩
  · rw [kept]
    exact early page
  · rcases early page with kept | ⟨_, mapped⟩
    · exact .inr ⟨kept ▸ missing, fresh⟩
    · rw [missing] at mapped
      cases mapped

@[simp] theorem inject_pages (fabric : Fabric) (addr : Word) (size : Nat) (value : Word) :
    (fabric.inject addr size value).core0.pages = fabric.core0.pages := by
  unfold inject Memory.ucMemWrite
  split
  · rfl
  · rfl

theorem demand_grown (fabric : Fabric) (load : Bool) (addr : Word) (size : Nat) :
    Grown fabric.core0.pages (fabric.demand load addr size).core0.pages := by
  unfold demand
  split
  · rename_i missing
    have fresh : Grown fabric.core0.pages (fabric.core0.mapPage addr.toNat).2.pages := by
      intro page
      rw [Memory.mapPage_missing (Option.isNone_iff_eq_none.mp missing)]
      by_cases here : page = addr.toNat / 0x1000
      · exact .inr ⟨by rw [here]; exact Option.isNone_iff_eq_none.mp missing, if_pos here⟩
      · exact .inl (if_neg here)
    unfold c0UnmappedHook
    split
    · rw [inject_pages]
      exact fresh
    · exact fresh
  · exact Grown.refl _

theorem faultIn_grown (fabric : Fabric) (load : Bool) (addr : Word) (size : Nat) :
    Grown fabric.core0.pages (fabric.faultIn load addr size).core0.pages := by
  unfold faultIn
  cases nextPage addr size with
  | none => exact demand_grown fabric load addr size
  | some next =>
    exact (demand_grown fabric load addr size).trans (demand_grown _ load next size)

/-- A page mapped on demand permits everything. -/
theorem permits_faultIn (fabric : Fabric) (addr : Word) (size : Nat) :
    permits (fabric.faultIn true addr size).core0 Prot.read addr size =
      permits fabric.core0 Prot.read addr size := by
  unfold permits
  congr 1
  funext index
  rcases faultIn_grown fabric true addr size (guestByte addr index / 0x1000) with kept | ⟨missing, fresh⟩
  · rw [kept]
  · rw [missing, fresh]
    rfl

theorem demand_devices (fabric : Fabric) (load : Bool) (addr : Word) (size : Nat) :
    (fabric.demand load addr size).devices = fabric.devices := by
  unfold demand c0UnmappedHook
  split
  · split
    · rfl
    · rfl
  · rfl

theorem faultIn_devices (fabric : Fabric) (load : Bool) (addr : Word) (size : Nat) :
    (fabric.faultIn load addr size).devices = fabric.devices := by
  unfold faultIn
  cases nextPage addr size with
  | none => exact demand_devices fabric load addr size
  | some next => exact (demand_devices _ load next size).trans (demand_devices fabric load addr size)

/-- Of the devices only the pad matters for what is brought in. -/
theorem demand_congr {left right : Fabric} (mem : left.core0 = right.core0)
    (pad : left.devices.input = right.devices.input) (load : Bool) (addr : Word) (size : Nat) :
    (left.demand load addr size).core0 = (right.demand load addr size).core0 := by
  unfold demand c0UnmappedHook inject
  rw [mem, pad]
  split
  · split
    · rfl
    · rfl
  · exact mem

theorem behind_congr {left right : Fabric} (mem : left.core0 = right.core0)
    (pad : left.devices.input = right.devices.input) (size : Nat) (addr : Word) :
    left.behind size addr = right.behind size addr := by
  have start := demand_congr mem pad true addr size
  unfold behind faultIn
  cases nextPage addr size with
  | none => rw [start]
  | some next =>
    have pads : (left.demand true addr size).devices.input =
        (right.demand true addr size).devices.input := by
      rw [demand_devices, demand_devices, pad]
    exact congrArg (fun mem => guestBytes mem addr size) (demand_congr start pads true next size)

theorem readRegister_input (devices : Devices) (addr : Word) :
    (devices.readRegister addr).2.input = devices.input := by
  unfold Devices.readRegister
  cases devices.pbus.mmioRead .firmware addr with
  | mk value pbus =>
    cases value with
    | some value => rfl
    | none =>
      dsimp only
      split
      · rfl
      · split
        · rfl
        · split
          · rfl
          · rfl

theorem demand_mapped (load : Bool) (size : Nat)
    (mapped : (fabric.core0.pages (addr.toNat / 0x1000)).isSome = true) :
    fabric.demand load addr size = fabric := by
  obtain ⟨page, found⟩ := Option.isSome_iff_exists.mp mapped
  rw [demand, found]
  rfl

/-- Nothing is brought in where everything is mapped. -/
theorem faultIn_present (positive : 0 < size) (load : Bool)
    (present : ∀ index, index < size →
      (fabric.core0.cell (guestByte addr index)).isSome = true) :
    fabric.faultIn load addr size = fabric := by
  have bound := addr.isLt
  have here := (Memory.isSome_cell.mp (present 0 positive)).2
  have first : guestByte addr 0 = addr.toNat := Nat.mod_eq_of_lt bound
  rw [first] at here
  rw [faultIn, demand_mapped load size here]
  cases found : nextPage addr size with
  | none => rfl
  | some next =>
    unfold nextPage at found
    split at found
    · cases found
    rename_i crosses
    have there := (Memory.isSome_cell.mp (present (0x1000 - addr.toNat % 0x1000) (by omega))).2
    have second : guestByte addr (0x1000 - addr.toNat % 0x1000) = next.toNat := by
      rw [← Option.some.inj found, BitVec.toNat_ofNat, guestByte]
      congr 1
      omega
    rw [second] at there
    exact demand_mapped load size there

theorem guestByte_backed (backed : fabric.core0.backed addr.toNat size = true) {index : Nat}
    (below : index < size) : guestByte addr index = addr.toNat + index :=
  Nat.mod_eq_of_lt (Memory.isSome_cell.mp (Memory.backed_iff.mp backed index below)).1

theorem guestBytes_backed (backed : fabric.core0.backed addr.toNat size = true) :
    guestBytes fabric.core0 addr size =
      (fabric.core0.cells addr.toNat size).map fabric.core0.contents := by
  have full : (fabric.core0.cells addr.toNat size).length = size := by
    simpa [Memory.backed] using backed
  apply List.ext_getElem?
  intro index
  by_cases below : index < size
  · have resolved : (fabric.core0.cells addr.toNat size)[index]? =
        fabric.core0.cell (addr.toNat + index) := getElem?_reach (by rw [← full] at below; exact below)
    have present := Memory.backed_iff.mp backed index below
    obtain ⟨cell, found⟩ := Option.isSome_iff_exists.mp present
    rw [List.getElem?_map, resolved, found, guestBytes, List.getElem?_map,
      List.getElem?_range below]
    simp [guestByte_backed backed below, Memory.byteAt, found]
  · rw [List.getElem?_eq_none (by simp [guestBytes]; omega),
      List.getElem?_eq_none (by rw [List.length_map, full]; omega)]

theorem faultIn_backed (positive : 0 < size) (load : Bool)
    (backed : fabric.core0.backed addr.toNat size = true) :
    fabric.faultIn load addr size = fabric :=
  faultIn_present positive load fun index below => by
    rw [guestByte_backed backed below]
    exact Memory.backed_iff.mp backed index below

/-- What the load finds once a value has been put behind the address. -/
theorem guestBytes_inject (value : Word) (backed : fabric.core0.backed addr.toNat size = true) :
    guestBytes (fabric.inject addr size value).core0 addr size = fabric.settled size addr value := by
  have full : (fabric.core0.cells addr.toNat size).length = size := by
    simpa [Memory.backed] using backed
  have written : (fabric.inject addr size value).core0 = fabric.core0.withContents (writeAll
      fabric.core0.contents ((fabric.core0.cells addr.toNat size).zip (leBytes size value.toNat))) := by
    rw [inject, Memory.ucMemWrite, length_leBytes, if_pos backed]
  have still : (fabric.inject addr size value).core0.backed addr.toNat size = true := by
    rw [written, Memory.backed_withContents, backed]
  rw [guestBytes_backed still, written, Memory.cells_withContents, Memory.contents_withContents, settled]
  refine List.map_congr_left fun cell member => writeAll_hit ?_
  exact exists_zip (by rw [full, length_leBytes]) member

/-- A value put behind an address that is not wholly mapped is lost. -/
theorem inject_refused (value : Word) (hole : fabric.core0.backed addr.toNat size = false) :
    fabric.inject addr size value = fabric := by
  rw [inject, Memory.ucMemWrite, length_leBytes, if_neg (by rw [hole]; exact Bool.false_ne_true)]

/-- The interpreter's load after the hook has put a value behind the address. -/
theorem load_injected (positive : 0 < size) (value : Word) :
    guestBytes ((fabric.inject addr size value).faultIn true addr size).core0 addr size =
      if fabric.core0.backed addr.toNat size then fabric.settled size addr value
      else fabric.behind size addr := by
  cases backed : fabric.core0.backed addr.toNat size with
  | false =>
    rw [inject_refused value backed]
    rfl
  | true =>
    have still : (fabric.inject addr size value).core0.backed addr.toNat size = true := by
      rw [inject, Memory.ucMemWrite, length_leBytes, if_pos backed, Memory.backed_withContents, backed]
    rw [faultIn_backed positive true still, guestBytes_inject value backed]
    rfl

theorem ucLoad_eq (fabric : Fabric) (size : Nat) (addr : Word) :
    fabric.ucLoad size addr =
      (if permits (fabric.c0MemReadHook addr size).core0 Prot.read addr size then
        some (leValue (guestBytes ((fabric.c0MemReadHook addr size).faultIn true addr size).core0 addr size))
      else none, (fabric.c0MemReadHook addr size).faultIn true addr size) := by
  rw [ucLoad, permits_faultIn]
  split
  · rfl
  · rfl

/-- The interpreter's load of a register. -/
theorem ucLoad_register (legal : size = 1 ∨ size = 2 ∨ size = 4) {value : Word} {devices : Devices}
    (read : fabric.devices.readRegister addr = (some value, devices)) :
    (fabric.ucLoad size addr).1 = (if permits fabric.core0 Prot.read addr size then
        some (leValue (if fabric.core0.backed addr.toNat size then fabric.settled size addr value
          else fabric.behind size addr))
      else none) ∧ (fabric.ucLoad size addr).2.devices = devices := by
  have register : isRegister addr = true := by
    rw [← readRegister_isSome fabric.devices, read]
    rfl
  have timeless : isClock addr = false := by
    by_contra clock
    rw [clock_not_register (by simpa using clock)] at register
    cases register
  have proper : ¬ (size ≠ 4 ∧ size ≠ 2 ∧ size ≠ 1) := by omega
  have hook : fabric.c0MemReadHook addr size =
      ({ fabric with devices } : Fabric).inject addr size value := by
    rw [c0MemReadHook, if_neg proper, timeless, if_neg Bool.false_ne_true]
    change (if isRegister addr = true then _ else _) = _
    rw [if_pos register, handlePeripheralRead, if_neg proper, read]
  rw [ucLoad_eq, hook]
  have pages := inject_pages { fabric with devices } addr size value
  constructor
  · rw [load_injected (by omega) value]
    have same : permits (({ fabric with devices } : Fabric).inject addr size value).core0 Prot.read
        addr size = permits fabric.core0 Prot.read addr size := by
      unfold permits
      rw [pages]
    have pad : devices.input = fabric.devices.input := by
      rw [← readRegister_input fabric.devices addr, read]
    have below : ({ fabric with devices } : Fabric).behind size addr = fabric.behind size addr := by
      apply behind_congr
      · rfl
      · exact pad
    rw [same, below]
    rfl
  · rw [faultIn_devices]
    rfl

/-- The interpreter's load in the window of the clock. -/
theorem ucLoad_clock (legal : size = 1 ∨ size = 2 ∨ size = 4) (clock : isClock addr = true) :
    (fabric.ucLoad size addr).1 = (if permits fabric.core0 Prot.read addr size then
        some (leValue (if fabric.core0.backed addr.toNat size then
            fabric.settled size addr fabric.clock
          else fabric.behind size addr))
      else none) ∧ (fabric.ucLoad size addr).2.devices = fabric.devices := by
  have proper : ¬ (size ≠ 4 ∧ size ≠ 2 ∧ size ≠ 1) := by omega
  have hook : fabric.c0MemReadHook addr size = fabric.inject addr size fabric.clock := by
    rw [c0MemReadHook, if_neg proper, if_pos clock]
  have pages := inject_pages fabric addr size fabric.clock
  rw [ucLoad_eq, hook]
  constructor
  · rw [load_injected (by omega), permits, pages]
    rfl
  · rw [faultIn_devices]
    rfl

/-- The interpreter's load everywhere else. -/
theorem ucLoad_plain (timeless : isClock addr = false) (plain : isRegister addr = false) :
    (fabric.ucLoad size addr).1 = (if permits fabric.core0 Prot.read addr size then
        some (leValue (fabric.behind size addr))
      else none) ∧ (fabric.ucLoad size addr).2.devices = fabric.devices := by
  have hook : fabric.c0MemReadHook addr size = fabric := by
    rw [c0MemReadHook, timeless, if_neg Bool.false_ne_true]
    change (if _ then _ else if isRegister addr = true then _ else _) = _
    rw [plain, if_neg Bool.false_ne_true, ite_self]
  rw [ucLoad_eq, hook]
  exact ⟨rfl, faultIn_devices fabric true addr size⟩

/-- The table resolves a byte of the access as the engine does. -/
theorem cell_guestByte (agrees : fabric.vtlb.Agrees fabric.core0) {index : Nat} {cell : Cell}
    (entry : fabric.vtlb.find (addr.toNat + index) = some cell) :
    fabric.core0.cell (guestByte addr index) = some cell := by
  refine agrees.cell (Nat.mod_lt _ (by omega)) ?_
  rw [guestByte, VtlbLut.find_mod, entry]

/-- Where one of the two covers an access, every byte of it is mapped. -/
theorem covered_present (agrees : fabric.vtlb.Agrees fabric.core0)
    (covered : fabric.core0.backed addr.toNat size = true ∨
      fabric.vtlb.covers addr.toNat size = true) {index : Nat} (below : index < size) :
    (fabric.core0.cell (guestByte addr index)).isSome = true := by
  rcases covered with backed | covers
  · rw [guestByte_backed backed below]
    exact Memory.backed_iff.mp backed index below
  · obtain ⟨cell, entry⟩ := Option.isSome_iff_exists.mp (VtlbLut.covers_iff.mp covers index below)
    rw [cell_guestByte agrees entry]
    rfl

/-- There the recompiler reads the memory behind the address. -/
theorem memoryRead_covered (agrees : fabric.vtlb.Agrees fabric.core0) (positive : 0 < size)
    (plain : isCore0Peripheral addr = false) (covered : fabric.core0.backed addr.toNat size = true ∨
      fabric.vtlb.covers addr.toNat size = true) :
    (memoryRead size fabric addr).1 = leValue (fabric.behind size addr) := by
  have present : ∀ index, index < size →
      (fabric.core0.cell (guestByte addr index)).isSome = true := fun _ below =>
    covered_present agrees covered below
  rw [memoryRead_plain plain, behind, faultIn_present positive true present]
  cases covers : fabric.vtlb.covers addr.toNat size with
  | false =>
    have backed : fabric.core0.backed addr.toNat size = true := by
      simpa [covers] using covered
    rw [if_pos ⟨rfl, backed⟩, guestBytes_backed backed]
  | true =>
    rw [if_neg fun both => Bool.true_eq_false.mp both.1]
    have full : (fabric.vtlb.cells addr.toNat size).length = size := by
      simpa [VtlbLut.covers] using covers
    rw [listed, VtlbLut.read_eq, full, Nat.sub_self, List.replicate_zero, List.append_nil]
    refine congrArg leValue (List.ext_getElem? fun index => ?_)
    by_cases below : index < size
    · have entry : (fabric.vtlb.cells addr.toNat size)[index]? =
          fabric.vtlb.find (addr.toNat + index) := getElem?_reach (by rw [← full] at below; exact below)
      obtain ⟨cell, held⟩ :=
        Option.isSome_iff_exists.mp (VtlbLut.covers_iff.mp covers index below)
      rw [List.getElem?_map, entry, guestBytes, List.getElem?_map, List.getElem?_range below, held]
      simp [Memory.byteAt, cell_guestByte agrees held]
    · rw [List.getElem?_eq_none (by rw [List.length_map, full]; omega),
        List.getElem?_eq_none (by simp [guestBytes]; omega)]

theorem length_behind (fabric : Fabric) (size : Nat) (addr : Word) :
    (fabric.behind size addr).length = size := by
  simp [behind, guestBytes]

theorem length_listed (fabric : Fabric) (size : Nat) (addr : Word) :
    (fabric.listed size addr).length = size :=
  fabric.vtlb.length_read fabric.core0.host addr.toNat size

theorem length_shown (fabric : Fabric) (size : Nat) (addr value : Word) :
    (if fabric.core0.backed addr.toNat size then fabric.settled size addr value
      else fabric.behind size addr).length = size := by
  cases backed : fabric.core0.backed addr.toNat size with
  | false => exact length_behind fabric size addr
  | true => simpa [settled, Memory.backed] using backed

/-- Two loads obtain one value when the interpreter's is permitted and their bytes agree. -/
theorem value_iff {permitted : Bool} {left right : List Byte} (same : left.length = right.length) :
    (if permitted then some (leValue left) else none) = some (leValue right) ↔
      permitted = true ∧ left = right := by
  cases permitted with
  | false => simp
  | true => simp [leValue_inj same]

/-- A load does not depend on the backend exactly when it reads alike. -/
theorem sameOnBackends_iff (fabric : Fabric) (size : Nat) (addr : Word)
    (agrees : fabric.vtlb.Agrees fabric.core0) (legal : size = 1 ∨ size = 2 ∨ size = 4) :
    SameOnBackends fabric size addr ↔ ReadsAlike fabric size addr := by
  unfold SameOnBackends ReadsAlike
  cases whole : fabric.devices.readRegister addr with
  | mk register devices =>
    cases register with
    | some value =>
      obtain ⟨shown, left⟩ := ucLoad_register legal whole
      rw [shown, left, memoryRead_register legal whole]
      simp only [and_true]
      exact value_iff (by rw [length_shown, length_leBytes])
    | none =>
      have plain : isRegister addr = false := by
        rw [← readRegister_isSome fabric.devices, whole]
        rfl
      cases clock : isClock addr with
      | true =>
        have peripheral : isCore0Peripheral addr = true := by simp [isCore0Peripheral, clock]
        obtain ⟨shown, left⟩ := @ucLoad_clock fabric size addr legal clock
        have value := @memoryRead_neutral fabric size addr legal peripheral plain
        rw [shown, left, value, peripheral]
        simp only [and_true, Bool.true_and, if_true]
        cases backed : fabric.core0.backed addr.toNat size with
        | true =>
          have width := length_shown fabric size addr fabric.clock
          rw [backed] at width
          exact value_iff (width.trans (length_listed fabric size addr).symm)
        | false =>
          exact value_iff ((length_behind fabric size addr).trans (length_listed fabric size addr).symm)
      | false =>
        obtain ⟨shown, left⟩ := @ucLoad_plain fabric size addr clock plain
        have widths := (length_behind fabric size addr).trans (length_listed fabric size addr).symm
        rw [shown, left]
        simp only [Bool.false_and, Bool.false_eq_true, if_false]
        cases peripheral : isCore0Peripheral addr with
        | true =>
          rw [@memoryRead_neutral fabric size addr legal peripheral plain]
          simp only [and_true, if_true]
          exact value_iff widths
        | false =>
          have still : (memoryRead size fabric addr).2.devices = fabric.devices := by
            rw [memoryRead_plain peripheral]
          rw [still]
          simp only [and_true, Bool.false_eq_true, if_false]
          by_cases covered : fabric.core0.backed addr.toNat size = true ∨
              fabric.vtlb.covers addr.toNat size = true
          · rw [memoryRead_covered agrees (by omega) peripheral covered, value_iff rfl, ← or_assoc]
            simp [covered]
          · have holes : ¬ (fabric.vtlb.covers addr.toNat size = false ∧
                fabric.core0.backed addr.toNat size = true) := fun both => covered (.inl both.2)
            rw [memoryRead_plain peripheral, if_neg holes, value_iff widths, ← or_assoc]
            simp [covered]

theorem boot_agrees (ram0 ram1 : Nat → Byte) (host : HostPtr → Byte) :
    (boot ram0 ram1 host).vtlb.Agrees (boot ram0 ram1 host).core0 := by
  intro page small entry
  have table : (boot ram0 ram1 host).vtlb.entries page =
      if 0x10000 ≤ page ∧ page < 0x10000 + 0x6000 ∧ page < 0x100000 then
        appsPoolHost + (page - 0x10000) * 0x1000
      else nullptr := rfl
  have pool : 0x10000 ≤ page ∧ page < 0x10000 + 0x6000 ∧ page < 0x100000 := by
    by_contra outside
    exact entry (table.trans (if_neg outside))
  have inPool : page ∈ pageSpan appsRamPhysBase appsRamPhysSize := ⟨pool.1, pool.2.1⟩
  have notSmem : page ∉ pageSpan smemBase.toNat smemSize := by
    intro member
    have below : page < 0x1f00 + 0x200 := member.2
    omega
  refine ⟨.all, ?_⟩
  rw [table, if_pos pool]
  simp only [boot, mappedPages, List.find?_cons, notSmem, inPool, decide_false, decide_true]
  rfl

/-- Sixteen instructions after boot. -/
def clockFabric : Fabric := { boot (fun _ => 0) (fun _ => 0) (fun _ => 0) with insns := 16 }

theorem clockFabric_agrees : clockFabric.vtlb.Agrees clockFabric.core0 :=
  boot_agrees (fun _ => 0) (fun _ => 0) (fun _ => 0)

/-- The clock reads 1000 on the interpreter and 0 on the recompiler. -/
theorem not_sameOnBackends_clock :
    clockFabric.vtlb.Agrees clockFabric.core0 ∧ ¬ SameOnBackends clockFabric 4 0xc5400000 := by
  refine ⟨clockFabric_agrees, fun same => ?_⟩
  have value := same.1
  revert value
  decide +kernel

/-- Line 6 is pending and enabled: reading the vector takes it into service. -/
def pendingFabric : Fabric :=
  let pbus := clockFabric.devices.pbus
  { clockFabric with
    devices := { clockFabric.devices with
      pbus := { pbus with vic := (pbus.vic.raiseLine 6).enableMask 0x40 } } }

theorem sameOnBackends_vector : SameOnBackends pendingFabric 4 0xc0000f00 := by
  refine (sameOnBackends_iff pendingFabric 4 0xc0000f00 clockFabric_agrees (by decide)).mpr ?_
  refine ⟨by decide +kernel, ?_⟩
  have seen : (pendingFabric.devices.readRegister 0xc0000f00).1 = some 6 := by decide +kernel
  rw [seen]
  decide +kernel

end Fabric

end ZeeboLle.System
