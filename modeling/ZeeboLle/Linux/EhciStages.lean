import ZeeboLle.Linux.EhciBuffers

/-! Stages of control transfers. A stage acts on the device by its direction and the last SETUP
packet, and on memory in its buffer and its token alone. -/
namespace ZeeboLle.Linux

open Unicorn Paging

/-- A qTD of a control transfer: its address, its token and its buffer pointers. -/
structure Stage where
  addr : Word
  token : Word
  bufs : List Word
deriving DecidableEq

namespace Stage

def ofRam (ram : FlatMemory) (addr : Word) : Stage where
  addr := addr
  token := ram.read32 (addr + 8)
  bufs := [ram.read32 (addr + 12), ram.read32 (addr + 16), ram.read32 (addr + 20),
    ram.read32 (addr + 24), ram.read32 (addr + 28)]

def active (stage : Stage) : Bool := tokenActive stage.token

def pid (stage : Stage) : Word := tokenPid stage.token

def total (stage : Stage) : Nat := tokenTotal stage.token

/-- The cells of its words but for the token. -/
def words (stage : Stage) : List Word :=
  FlatMemory.cells stage.addr 8 ++ FlatMemory.cells (stage.addr + 12) 20

/-- The cells that get its status. -/
def statusCells (stage : Stage) : List Word := FlatMemory.cells (stage.addr + 8) 4

/-- The cells that may get bytes from the device. -/
def dataCells (stage : Stage) : List Word :=
  if stage.active = true ∧ stage.pid = 1 then qtdCells stage.bufs 0 stage.total else []

end Stage

namespace UsbState

/-- The state after a stage, with the status in its token. -/
def execute (mapped : Mapping) (state : UsbState) (stage : Stage) : UsbState :=
  let (moved, state) := state.usbControl mapped stage.pid stage.bufs stage.total
  { state with ram := writeWord mapped state.ram (stage.addr + 8) (tokenDone stage.token moved) }

/-- What the device has for an IN stage. -/
def payload (state : UsbState) : List Byte :=
  if state.setup.bReq = 0x06#8 then (Hidkbd.descriptor state.setup.wValue).getD []
  else if state.setup.bReq = 0x08#8 then [if state.configured then 1 else 0]
  else if state.setup.bReq = 0x00#8 then [0, 0]
  else []

/-- What an OUT stage sets. -/
def act (state : UsbState) : UsbState :=
  if state.setup.bReq = 0x05#8 then
    { state with address := state.setup.wValue.extractLsb' 0 8 &&& 0x7f#8 }
  else if state.setup.bReq = 0x09#8 then { state with configured := state.setup.wValue ≠ 0 }
  else state

end UsbState

/-- A stage on record. -/
def Ehci.execute (mapped : Mapping) (ehci : Ehci) (stage : Stage) : Ehci :=
  let after := ehci.state.execute mapped stage
  { ehci with
    state := after
    usbXfers := ehci.usbXfers ++ [⟨0, stage.addr, none, ehci.state, after⟩] }

variable {mapped : Mapping} {bufs : List Word} {state : UsbState} {stage : Stage}

/-- An answer fills a buffer in memory as far as it goes. -/
theorem reply_eq (unmapped : mapped 0#20 = false) {want : Nat} (fits : QtdFits mapped bufs want)
    (src : List Byte) :
    state.reply mapped bufs src want =
      ((src.take want).length, { state with ram := scatter state.ram bufs (src.take want) }) := by
  have least : min want src.length ≤ src.length := Nat.min_le_right ..
  rw [UsbState.reply, usbQtdWrite_eq unmapped least (fits.mono (Nat.min_le_left ..)), List.length_take,
    ← List.take_eq_take_min]

theorem usbControl_in (unmapped : mapped 0#20 = false) {want : Nat} (fits : QtdFits mapped bufs want)
    (valid : state.setupValid = true) :
    state.usbControl mapped 1 bufs want = ((state.payload.take want).length,
      { state with ram := scatter state.ram bufs (state.payload.take want) }) := by
  have nothing : (0, state) = (([].take want : List Byte).length,
      { state with ram := scatter state.ram bufs ([].take want) }) := by
    rw [List.take_nil, scatter_nil, List.length_nil]
  have notSetup : ¬(1 : Word) = 2 := by decide
  have notInvalid : ¬state.setupValid = false := by simp [valid]
  unfold UsbState.usbControl UsbState.payload
  rw [if_neg notSetup, if_neg notInvalid, if_pos rfl]
  split
  · split
    · rename_i bytes found
      rw [found]
      exact reply_eq unmapped fits bytes
    · rename_i found
      rw [found]
      exact nothing
  · split
    · exact reply_eq unmapped fits _
    · split
      · exact reply_eq unmapped fits _
      · exact nothing

theorem usbControl_out (valid : state.setupValid = true) (bufs : List Word) (want : Nat) :
    state.usbControl mapped 0 bufs want = (want, state.act) := by
  have notSetup : ¬(0 : Word) = 2 := by decide
  have notIn : ¬(0 : Word) = 1 := by decide
  have notInvalid : ¬state.setupValid = false := by simp [valid]
  unfold UsbState.usbControl UsbState.act
  rw [if_neg notSetup, if_neg notInvalid, if_neg notIn]
  split
  · rfl
  · split
    · rfl
    · rfl

/-- A stage in memory. -/
@[mk_iff]
structure Stage.InRam (mapped : Mapping) (ram : FlatMemory) (stage : Stage) : Prop where
  backed : mapped.backed stage.addr 32 = true
  same : Stage.ofRam ram stage.addr = stage

instance (mapped : Mapping) (ram : FlatMemory) (stage : Stage) : Decidable (stage.InRam mapped ram) :=
  decidable_of_iff' _ (Stage.inRam_iff ..)

theorem Stage.writeStatus (backed : mapped.backed stage.addr 32 = true) (ram : FlatMemory) (token : Word) :
    writeWord mapped ram (stage.addr + 8) token = ram.write32 (stage.addr + 8) token :=
  if_pos (Mapping.backed_inside backed (by decide : 8 + 4 ≤ 32))

/-- A stage that is Active is executed. -/
theorem usbRunQtd_active {ehci : Ehci} (inRam : stage.InRam mapped ehci.state.ram)
    (active : stage.active = true) (isIntr : Bool) :
    ehci.usbRunQtd mapped 0 stage.addr true isIntr = (true, ehci.execute mapped stage) := by
  have token : ehci.state.ram.read32 (stage.addr + 8) = stage.token := congrArg Stage.token inRam.same
  have bufs := congrArg Stage.bufs inRam.same
  have words : readWords mapped ehci.state.ram stage.addr 8 =
      some fun index => ehci.state.ram.read32 (stage.addr + BitVec.ofNat 32 (4 * index)) :=
    if_pos inRam.backed
  have isActive : ¬tokenActive stage.token = false := Bool.not_eq_false _ ▸ active
  unfold Ehci.usbRunQtd
  rw [words]
  change (if tokenActive (ehci.state.ram.read32 (stage.addr + 8)) = false then (false, ehci)
    else if true = true then
      (true, ehci.complete mapped 0 stage.addr (ehci.state.ram.read32 (stage.addr + 8)) none
        (ehci.state.usbControl mapped (tokenPid (ehci.state.ram.read32 (stage.addr + 8)))
          (Stage.ofRam ehci.state.ram stage.addr).bufs
          (tokenTotal (ehci.state.ram.read32 (stage.addr + 8)))).1
        (ehci.state.usbControl mapped (tokenPid (ehci.state.ram.read32 (stage.addr + 8)))
          (Stage.ofRam ehci.state.ram stage.addr).bufs
          (tokenTotal (ehci.state.ram.read32 (stage.addr + 8)))).2)
    else _) = _
  rw [token, bufs, if_neg isActive, if_pos rfl]
  rfl

/-- A stage that is not Active is passed over. -/
theorem usbRunQtd_idle {ehci : Ehci} {qtd : Word}
    (idle : tokenActive (ehci.state.ram.read32 (qtd + 8)) = false) (endpoint : Word)
    (isControl isIntr : Bool) :
    ehci.usbRunQtd mapped endpoint qtd isControl isIntr = (false, ehci) := by
  unfold Ehci.usbRunQtd
  split
  · rfl
  · rename_i q words
    obtain ⟨-, rfl⟩ := readWords_eq_some words
    exact if_pos idle

theorem execute_setup (backed : mapped.backed stage.addr 32 = true) (setup : stage.pid = 2)
    (packet : qtdBuf stage.bufs 0 ≠ 0 ∧ mapped.backed (qtdBuf stage.bufs 0) 8 = true) :
    state.execute mapped stage =
      { state with
        setup := .ofRam state.ram (qtdBuf stage.bufs 0)
        setupValid := true
        ram := state.ram.write32 (stage.addr + 8) (tokenDone stage.token stage.total) } := by
  have control : state.usbControl mapped 2 stage.bufs stage.total = (stage.total,
      { state with setup := .ofRam state.ram (qtdBuf stage.bufs 0), setupValid := true }) := by
    rw [UsbState.usbControl, if_pos rfl, if_pos packet]
  rw [UsbState.execute, setup, control]
  dsimp only
  rw [stage.writeStatus backed]

theorem execute_in (unmapped : mapped 0#20 = false) (backed : mapped.backed stage.addr 32 = true)
    (isIn : stage.pid = 1) (fits : QtdFits mapped stage.bufs stage.total)
    (valid : state.setupValid = true) :
    state.execute mapped stage =
      { state with
        ram := (scatter state.ram stage.bufs (state.payload.take stage.total)).write32 (stage.addr + 8)
          (tokenDone stage.token (state.payload.take stage.total).length) } := by
  rw [UsbState.execute, isIn, usbControl_in unmapped fits valid]
  dsimp only
  rw [stage.writeStatus backed]

theorem execute_out (backed : mapped.backed stage.addr 32 = true) (out : stage.pid = 0)
    (valid : state.setupValid = true) :
    state.execute mapped stage =
      { state.act with ram := state.ram.write32 (stage.addr + 8) (tokenDone stage.token stage.total) } := by
  have ram : state.act.ram = state.ram := by
    unfold UsbState.act
    split
    · rfl
    · split
      · rfl
      · rfl
  rw [UsbState.execute, out, usbControl_out valid]
  dsimp only
  rw [stage.writeStatus backed, ram]

theorem usbControl_ram {pid : Word} (other : pid ≠ 1 ∨ state.setupValid = false) (want : Nat) :
    (state.usbControl mapped pid bufs want).2.ram = state.ram := by
  unfold UsbState.usbControl
  split
  · split
    · rfl
    · rfl
  · split
    · rfl
    · rename_i valid
      rw [if_neg (other.resolve_right valid)]
      split
      · rfl
      · split
        · rfl
        · rfl

/-- Memory changes in the token and, for an IN stage, in the buffer. -/
theorem execute_ram (unmapped : mapped 0#20 = false) (backed : mapped.backed stage.addr 32 = true)
    (fits : stage.pid = 1 → QtdFits mapped stage.bufs stage.total) (state : UsbState) :
    ∃ bytes moved, (state.execute mapped stage).ram =
        (scatter state.ram stage.bufs bytes).write32 (stage.addr + 8) (tokenDone stage.token moved) ∧
      bytes.length ≤ if stage.pid = 1 then stage.total else 0 := by
  by_cases isIn : stage.pid = 1 ∧ state.setupValid = true
  · obtain ⟨isIn, valid⟩ := isIn
    rw [execute_in unmapped backed isIn (fits isIn) valid, if_pos isIn]
    exact ⟨_, _, rfl, List.length_take_le ..⟩
  · have other : stage.pid ≠ 1 ∨ state.setupValid = false := by
      rw [not_and_or, Bool.not_eq_true] at isIn
      exact isIn
    refine ⟨[], (state.usbControl mapped stage.pid stage.bufs stage.total).1, ?_, Nat.zero_le _⟩
    rw [UsbState.execute]
    dsimp only
    rw [stage.writeStatus backed, usbControl_ram other, scatter_nil]

/-- Cells apart from its token and its buffer are left alone. -/
theorem execute_outside (unmapped : mapped 0#20 = false) (backed : mapped.backed stage.addr 32 = true)
    (active : stage.active = true) (fits : stage.pid = 1 → QtdFits mapped stage.bufs stage.total)
    {cell : Word} (status : cell ∉ stage.statusCells) (data : cell ∉ stage.dataCells) :
    (state.execute mapped stage).ram cell = state.ram cell := by
  obtain ⟨bytes, moved, ram, short⟩ := execute_ram unmapped backed fits state
  rw [ram, FlatMemory.write32_outside status]
  refine writeAll_outside ?_
  rintro write member rfl
  have inBuffer := (List.of_mem_zip member).1
  split at short
  · rename_i isIn
    rw [Stage.dataCells, if_pos ⟨active, isIn⟩] at data
    exact data (qtdCells_mono short inBuffer)
  · rw [Nat.le_zero.mp short] at inBuffer
    cases inBuffer

/-- An executed stage is not Active. -/
theorem execute_status (unmapped : mapped 0#20 = false) (backed : mapped.backed stage.addr 32 = true)
    (fits : stage.pid = 1 → QtdFits mapped stage.bufs stage.total) :
    tokenActive ((state.execute mapped stage).ram.read32 (stage.addr + 8)) = false := by
  obtain ⟨bytes, moved, ram, -⟩ := execute_ram unmapped backed fits state
  rw [ram, FlatMemory.read32_write32]
  exact tokenActive_done ..

end ZeeboLle.Linux
