import ZeeboLle.System.Scheduler

/-! System instructions the recompiler hands back. It keeps one register file and no banks,
so its callbacks execute CPS, LDM/STM of user registers and RFE themselves, with a bank of
r13 and r14 for user and system mode. -/
namespace ZeeboLle.Jit

open Unicorn ZeeboLle.System

/-- The callbacks into the emulator. Reading a peripheral may change it. -/
structure MemoryBridge (σ : Type*) where
  onCode : σ → Word → σ
  read32 : σ → Word → Word × σ
  write32 : σ → Word → Word → σ

structure ModeBank where
  r13 : Word
  r14 : Word
deriving DecidableEq

namespace ModeBank

def read (bank : ModeBank) (index : Fin 16) : Word := if index = 13 then bank.r13 else bank.r14

def write (bank : ModeBank) (index : Fin 16) (value : Word) : ModeBank :=
  if index = 13 then { bank with r13 := value } else { bank with r14 := value }

end ModeBank

/-- r13 and r14. -/
def Banked (index : Fin 16) : Prop := index = 13 ∨ index = 14

theorem Banked.ne_pc {index : Fin 16} (banked : Banked index) : index ≠ 15 := by
  rcases banked with rfl | rfl
  · decide
  · decide

theorem ModeBank.read_write {bank : ModeBank} {index other : Fin 16} (banked : Banked index)
    (written : Banked other) (value : Word) :
    (bank.write other value).read index = if index = other then value else bank.read index := by
  rcases banked with rfl | rfl
  · rcases written with rfl | rfl
    · rfl
    · rfl
  · rcases written with rfl | rfl
    · rfl
    · rfl

/-- User and system mode share a bank. -/
def usesUserBank (mode : Word) : Bool := mode == 0x10#32 || mode == 0x1f#32

/-- The state of the callbacks: the current register file with CPSR, the user bank, the
mode the file belongs to, memory behind the bridge and the report of a refusal. -/
structure Impl (σ : Type*) where
  jit : JitRegs
  bankUsr : ModeBank
  curMode : Word
  memory : σ
  fallbackPending : Bool
  fallbackPc : Word
  ticksLeft : Nat

namespace Impl

variable {σ : Type*} (bridge : MemoryBridge σ) (core : Impl σ)

/-- CPSR[4:0]. -/
def mode : Word := core.jit.cpsr &&& 0x1f#32

/-- A register of the current file. -/
def setReg (index : Fin 16) (value : Word) : Impl σ :=
  { core with jit := { core.jit with r := Function.update core.jit.r index value } }

def setCpsr (value : Word) : Impl σ := { core with jit := { core.jit with cpsr := value } }

def memoryRead32 (addr : Word) : Word × Impl σ :=
  let (value, memory) := bridge.read32 core.memory addr
  (value, { core with memory })

def memoryReadCode (addr : Word) : Word × Impl σ :=
  ({ core with memory := bridge.onCode core.memory addr } : Impl σ).memoryRead32 bridge addr

/-- Leaving user or system mode saves r13 and r14, entering one of them loads them. -/
def switchMode (newMode : Word) : Impl σ :=
  if newMode = core.curMode then core
  else
    let core :=
      if usesUserBank core.curMode then { core with bankUsr := ⟨core.jit.r 13, core.jit.r 14⟩ }
      else core
    let core :=
      if usesUserBank newMode then
        (core.setReg 13 core.bankUsr.r13).setReg 14 core.bankUsr.r14
      else core
    { core with curMode := newMode }

def isCps (insn : Word) : Bool := insn &&& 0xfff1fe20#32 == 0xf1000000#32

/-- The mask bits the instruction names. -/
def cpsAffected (insn : Word) : Word :=
  (if (insn >>> 8) &&& 1#32 ≠ 0 then 0x100#32 else 0#32) |||
    (if (insn >>> 7) &&& 1#32 ≠ 0 then 0x80#32 else 0#32) |||
    (if (insn >>> 6) &&& 1#32 ≠ 0 then 0x40#32 else 0#32)

/-- CPSR with the named masks cleared or set. -/
def cpsMasked (cpsr insn : Word) : Word :=
  let imod := (insn >>> 18) &&& 3#32
  if imod = 0b10#32 then cpsr &&& ~~~cpsAffected insn
  else if imod = 0b11#32 then cpsr ||| cpsAffected insn
  else cpsr

def cpsChangesMode (insn : Word) : Bool := (insn >>> 17) &&& 1#32 != 0#32

def cps (insn pc : Word) : Impl σ :=
  let newMode := insn &&& 0x1f#32
  let cpsr := cpsMasked core.jit.cpsr insn
  let core :=
    if cpsChangesMode insn then (core.switchMode newMode).setCpsr ((cpsr &&& ~~~0x1f#32) ||| newMode)
    else core.setCpsr cpsr
  core.setReg 15 (pc + 4)

def tryExecuteCps (pc : Word) : Bool × Impl σ :=
  let (insn, core) := core.memoryReadCode bridge pc
  if isCps insn then (true, core.cps insn pc) else (false, core)

/-- The S bit set, PC not in the list, no writeback. -/
def isLdmUsr (insn : Word) : Bool :=
  insn &&& 0x0e000000#32 == 0x08000000#32 && insn.getLsbD 22 && !insn.getLsbD 15 && !insn.getLsbD 21

def ldmList (insn : Word) : Word := insn &&& 0xffff#32

def popcount (list : Word) : Word := BitVec.ofNat 32 ((List.range 32).countP list.getLsbD)

/-- The register in bits 16 to 19. -/
def baseReg (insn : Word) : Fin 16 := (insn.extractLsb' 16 4).toFin

/-- The address of the lowest register, for IB, IA, DB and DA. -/
def ldmStart (insn base : Word) : Word :=
  let n := popcount (ldmList insn)
  if insn.getLsbD 23 then (if insn.getLsbD 24 then base + 4 else base)
  else if insn.getLsbD 24 then base - 4 * n
  else base - 4 * n + 4

/-- One register of the list, at an address that then moves on. In a privileged mode r13 and
r14 are those of the user bank. -/
def transfer (insn mode : Word) (state : Impl σ × Word) (index : Fin 15) : Impl σ × Word :=
  let (core, addr) := state
  let index := index.castSucc
  let banked := (index == 13 || index == 14) && !usesUserBank mode
  if insn.getLsbD 20 then
    let (value, core) := core.memoryRead32 bridge addr
    if banked then ({ core with bankUsr := core.bankUsr.write index value }, addr + 4)
    else (core.setReg index value, addr + 4)
  else
    let value := if banked then core.bankUsr.read index else core.jit.r index
    ({ core with memory := bridge.write32 core.memory addr value }, addr + 4)

/-- One turn of the loop over r0-r14. -/
def ldmTurn (insn mode : Word) (state : Impl σ × Word) (index : Fin 15) : Impl σ × Word :=
  if (ldmList insn).getLsbD index then transfer bridge insn mode state index else state

def ldmUsr (insn pc : Word) : Impl σ :=
  let start := (core, ldmStart insn (core.jit.r (baseReg insn)))
  let (core, _) := (List.finRange 15).foldl (ldmTurn bridge insn core.mode) start
  core.setReg 15 (pc + 4)

def tryExecuteLdmUsr (pc : Word) : Bool × Impl σ :=
  if core.jit.cpsr &&& 0x20#32 ≠ 0 then (false, core)
  else
    let (insn, core) := core.memoryRead32 bridge pc
    if isLdmUsr insn then (true, core.ldmUsr bridge insn pc) else (false, core)

def isRfe (insn : Word) : Bool := insn &&& 0xfe50ffff#32 == 0xf8100a00#32

/-- The address of the saved PC, for IB, IA, DB and DA. -/
def rfeStart (insn base : Word) : Word :=
  if insn.getLsbD 23 then (if insn.getLsbD 24 then base + 4 else base)
  else if insn.getLsbD 24 then base - 8
  else base - 4

/-- The saved PC and CPSR. -/
def rfeFrame (insn : Word) : Word × Word × Impl σ :=
  let addr := rfeStart insn (core.jit.r (baseReg insn))
  let (newPc, core) := core.memoryRead32 bridge addr
  let (newCpsr, core) := core.memoryRead32 bridge (addr + 4)
  (newPc, newCpsr, core)

def rfeWriteback (insn base : Word) : Impl σ :=
  if insn.getLsbD 21 then
    core.setReg (baseReg insn) (if insn.getLsbD 23 then base + 8 else base - 8)
  else core

def rfe (insn : Word) : Impl σ :=
  let base := core.jit.r (baseReg insn)
  let (newPc, newCpsr, core) := core.rfeFrame bridge insn
  let core := core.rfeWriteback insn base
  let core := core.switchMode (newCpsr &&& 0x1f#32)
  (core.setCpsr newCpsr).setReg 15 newPc

def tryExecuteRfe (pc : Word) : Bool × Impl σ :=
  if core.jit.cpsr &&& 0x20#32 ≠ 0 then (false, core)
  else
    let (insn, core) := core.memoryRead32 bridge pc
    if isRfe insn then (true, core.rfe bridge insn) else (false, core)

/-- The three handlers in turn; an instruction none of them takes ends the quantum. -/
def interpreterFallback (pc : Word) : Impl σ :=
  let (taken, core) := core.tryExecuteCps bridge pc
  if taken then core
  else
    let (taken, core) := core.tryExecuteLdmUsr bridge pc
    if taken then core
    else
      let (taken, core) := core.tryExecuteRfe bridge pc
      if taken then core
      else { core with fallbackPending := true, fallbackPc := pc, ticksLeft := 0 }

inductive Handled where
  | cps (insn : Word)
  | ldmUsr (insn : Word)
  | rfe (insn : Word)
  | refused
deriving DecidableEq

/-- The handler that takes the instruction, and memory after the fetches. -/
def dispatch (pc : Word) : Handled × σ :=
  let (insn, fetched) := core.memoryReadCode bridge pc
  if isCps insn then (.cps insn, fetched.memory)
  else if core.jit.cpsr &&& 0x20#32 ≠ 0 then (.refused, fetched.memory)
  else
    let (insn, fetched) := fetched.memoryRead32 bridge pc
    if isLdmUsr insn then (.ldmUsr insn, fetched.memory)
    else
      let (insn, fetched) := fetched.memoryRead32 bridge pc
      if isRfe insn then (.rfe insn, fetched.memory) else (.refused, fetched.memory)

def execute (handled : Handled) (pc : Word) : Impl σ :=
  match handled with
  | .cps insn => core.cps insn pc
  | .ldmUsr insn => core.ldmUsr bridge insn pc
  | .rfe insn => core.rfe bridge insn
  | .refused => { core with fallbackPending := true, fallbackPc := pc, ticksLeft := 0 }

/-- The fetches change memory alone, so the handlers in turn come to one dispatch. -/
theorem interpreterFallback_eq (pc : Word) :
    core.interpreterFallback bridge pc =
      ({ core with memory := (core.dispatch bridge pc).2 } : Impl σ).execute bridge
        (core.dispatch bridge pc).1 pc := by
  obtain ⟨insn, memory, fetch⟩ : ∃ insn memory,
      core.memoryReadCode bridge pc = (insn, { core with memory }) := ⟨_, _, rfl⟩
  obtain ⟨second, memory₂, fetch₂⟩ : ∃ second memory₂,
      ({ core with memory } : Impl σ).memoryRead32 bridge pc =
        (second, { core with memory := memory₂ }) := ⟨_, _, rfl⟩
  obtain ⟨third, memory₃, fetch₃⟩ : ∃ third memory₃,
      ({ core with memory := memory₂ } : Impl σ).memoryRead32 bridge pc =
        (third, { core with memory := memory₃ }) := ⟨_, _, rfl⟩
  simp only [interpreterFallback, dispatch, tryExecuteCps, tryExecuteLdmUsr, tryExecuteRfe, fetch]
  by_cases isCps : isCps insn = true
  · simp [isCps, execute]
  · by_cases arm : core.jit.cpsr &&& 0x20#32 = 0#32
    · by_cases isLdmUsr : isLdmUsr second = true
      · simp [isCps, arm, fetch₂, isLdmUsr, execute]
      · by_cases isRfe : isRfe third = true
        · simp [isCps, arm, fetch₂, isLdmUsr, fetch₃, isRfe, execute]
        · simp [isCps, arm, fetch₂, isLdmUsr, fetch₃, isRfe, execute]
    · simp [isCps, arm, execute]

/-- Switching: the file is kept, but for the user bank loaded from outside it, and the user
bank is kept, but for the file saved into it. -/
structure Switched (before after : Impl σ) (newMode : Word) : Prop where
  curMode : after.curMode = newMode
  cpsr : after.jit.cpsr = before.jit.cpsr
  file : ∀ index, Banked index → after.jit.r index =
    if usesUserBank newMode && !usesUserBank before.curMode then before.bankUsr.read index
    else before.jit.r index
  bankUsr : ∀ index, Banked index → after.bankUsr.read index =
    if usesUserBank before.curMode && newMode != before.curMode then before.jit.r index
    else before.bankUsr.read index

theorem switchMode_switched (newMode : Word) : Switched core (core.switchMode newMode) newMode := by
  unfold switchMode
  split
  · rename_i same
    subst same
    exact ⟨rfl, rfl, by simp, by simp⟩
  · rename_i other
    cases fromUser : usesUserBank core.curMode with
    | true =>
      cases toUser : usesUserBank newMode with
      | true =>
        refine ⟨rfl, by simp [setReg], ?_, ?_⟩
        · rintro index (rfl | rfl)
          · simp [fromUser, setReg]
          · simp [fromUser, setReg]
        · rintro index (rfl | rfl)
          · simp [fromUser, other, setReg, ModeBank.read]
          · simp [fromUser, other, setReg, ModeBank.read]
      | false =>
        refine ⟨rfl, by simp, ?_, ?_⟩
        · intro index banked
          simp [toUser]
        · rintro index (rfl | rfl)
          · simp [fromUser, other, ModeBank.read]
          · simp [fromUser, other, ModeBank.read]
    | false =>
      cases toUser : usesUserBank newMode with
      | true =>
        refine ⟨rfl, by simp [setReg], ?_, ?_⟩
        · rintro index (rfl | rfl)
          · simp [fromUser, toUser, setReg, ModeBank.read]
          · simp [fromUser, toUser, setReg, ModeBank.read]
        · intro index banked
          simp [fromUser, setReg]
      | false =>
        refine ⟨rfl, by simp, ?_, ?_⟩
        · intro index banked
          simp [toUser]
        · intro index banked
          simp [fromUser]

theorem and_not_and {value masked mode : Word} (apart : masked &&& mode = 0#32) :
    (value &&& ~~~masked) &&& mode = value &&& mode := by
  ext index bound
  have bit := congrArg (fun word : Word => word[index]) apart
  simp only [BitVec.getElem_and, BitVec.getElem_zero] at bit
  rw [BitVec.getElem_and, BitVec.getElem_and, BitVec.getElem_not, BitVec.getElem_and]
  cases set : masked[index] with
  | false => simp
  | true =>
    rw [set, Bool.true_and] at bit
    simp [bit]

theorem or_and {value masked mode : Word} (apart : masked &&& mode = 0#32) :
    (value ||| masked) &&& mode = value &&& mode := by
  rw [BitVec.and_comm, BitVec.and_or_distrib_left, BitVec.and_comm mode masked, apart,
    BitVec.or_zero, BitVec.and_comm]

theorem cpsAffected_apart (insn : Word) : cpsAffected insn &&& 0x1f#32 = 0#32 := by
  unfold cpsAffected
  split <;> split <;> split <;> rfl

/-- Masks leave the mode alone. -/
theorem cpsMasked_mode (cpsr insn : Word) : cpsMasked cpsr insn &&& 0x1f#32 = cpsr &&& 0x1f#32 := by
  unfold cpsMasked
  dsimp only
  split
  · exact and_not_and (cpsAffected_apart insn)
  · split
    · exact or_and (cpsAffected_apart insn)
    · rfl

/-- What a handler that asks for a mode leaves behind. -/
structure Entered (before after : Impl σ) (newMode : Word) (left : Fin 16 → Word) : Prop where
  curMode : after.curMode = newMode
  mode : after.mode = newMode
  file : ∀ index, Banked index → after.jit.r index =
    if usesUserBank newMode && !usesUserBank before.curMode then before.bankUsr.read index
    else left index
  bankUsr : ∀ index, Banked index → after.bankUsr.read index =
    if usesUserBank before.curMode && newMode != before.curMode then left index
    else before.bankUsr.read index

/-- What the other handlers leave behind. -/
structure Stayed (before after : Impl σ) : Prop where
  curMode : after.curMode = before.curMode
  mode : after.mode = before.mode

theorem setReg_pc {index : Fin 16} (banked : Banked index) (value : Word) :
    (core.setReg 15 value).jit.r index = core.jit.r index := Function.update_of_ne banked.ne_pc ..

theorem cps_entered {insn : Word} (asks : cpsChangesMode insn = true) (pc : Word) :
    Entered core (core.cps insn pc) (insn &&& 0x1f#32) core.jit.r := by
  have switched := core.switchMode_switched (insn &&& 0x1f#32)
  unfold cps
  dsimp only
  rw [if_pos asks]
  refine ⟨switched.curMode, ?_, ?_, switched.bankUsr⟩
  · change (cpsMasked core.jit.cpsr insn &&& ~~~0x1f#32 ||| insn &&& 0x1f#32) &&& 0x1f#32 = _
    ext index bound
    interval_cases index <;> simp
  · intro index banked
    exact (setReg_pc _ banked _).trans (switched.file index banked)

theorem cps_stayed {insn : Word} (keeps : cpsChangesMode insn = false) (pc : Word) :
    Stayed core (core.cps insn pc) ∧ (core.cps insn pc).bankUsr = core.bankUsr := by
  unfold cps
  dsimp only
  rw [if_neg (by simp [keeps])]
  exact ⟨⟨rfl, cpsMasked_mode core.jit.cpsr insn⟩, rfl⟩

/-- The file an RFE leaves, and the mode it asks for. -/
def rfeLeaves (insn : Word) : Fin 16 → Word :=
  (core.rfeWriteback insn (core.jit.r (baseReg insn))).jit.r

theorem rfeWriteback_frame (insn base : Word) :
    (core.rfeWriteback insn base).curMode = core.curMode ∧
      (core.rfeWriteback insn base).bankUsr = core.bankUsr := by
  unfold rfeWriteback
  split
  · exact ⟨rfl, rfl⟩
  · exact ⟨rfl, rfl⟩

theorem rfeWriteback_memory (insn base : Word) (memory : σ) :
    (({ core with memory } : Impl σ).rfeWriteback insn base).jit =
      (core.rfeWriteback insn base).jit := by
  unfold rfeWriteback
  split
  · rfl
  · rfl

theorem rfe_entered (insn : Word) :
    Entered core (core.rfe bridge insn) ((core.rfeFrame bridge insn).2.1 &&& 0x1f#32)
      (core.rfeLeaves insn) := by
  obtain ⟨newPc, newCpsr, memory, frame⟩ : ∃ newPc newCpsr memory,
      core.rfeFrame bridge insn = (newPc, newCpsr, { core with memory }) := ⟨_, _, _, rfl⟩
  obtain ⟨curMode, bankUsr⟩ := ({ core with memory } : Impl σ).rfeWriteback_frame insn
    (core.jit.r (baseReg insn))
  have jit := core.rfeWriteback_memory insn (core.jit.r (baseReg insn)) memory
  have switched := (({ core with memory } : Impl σ).rfeWriteback insn
    (core.jit.r (baseReg insn))).switchMode_switched (newCpsr &&& 0x1f#32)
  obtain ⟨current, cpsr, file, bank⟩ := switched
  rw [curMode, bankUsr, jit] at file bank
  unfold rfe
  rw [frame]
  refine ⟨current, rfl, ?_, bank⟩
  intro index banked
  exact (setReg_pc _ banked _).trans (file index banked)

/-- The word a load brings for a register, as the turns of the loop come to it. -/
def loaded (insn : Word) : List (Fin 15) → Word → σ → Fin 16 → Option Word
  | [], _, _, _ => none
  | turn :: rest, addr, memory, index =>
    if (ldmList insn).getLsbD turn then
      let found := bridge.read32 memory addr
      (loaded insn rest (addr + 4) found.2 index).or
        (if index = turn.castSucc then some found.1 else none)
    else loaded insn rest addr memory index

/-- What the instruction loads into the user bank. -/
def userLoads (insn : Word) : Fin 16 → Option Word :=
  if insn.getLsbD 20 && !usesUserBank core.mode then
    loaded bridge insn (List.finRange 15) (ldmStart insn (core.jit.r (baseReg insn))) core.memory
  else fun _ => none

theorem ldmTurn_stayed (insn mode addr : Word) (turn : Fin 15) :
    Stayed core (ldmTurn bridge insn mode (core, addr) turn).1 := by
  unfold ldmTurn transfer
  dsimp only
  split
  · split
    · split
      · exact ⟨rfl, rfl⟩
      · exact ⟨rfl, rfl⟩
    · exact ⟨rfl, rfl⟩
  · exact ⟨rfl, rfl⟩

theorem Stayed.trans {first second third : Impl σ} (earlier : Stayed first second)
    (later : Stayed second third) : Stayed first third :=
  ⟨later.curMode.trans earlier.curMode, later.mode.trans earlier.mode⟩

theorem ldmLoop_stayed (insn mode addr : Word) (turns : List (Fin 15)) :
    Stayed core (turns.foldl (ldmTurn bridge insn mode) (core, addr)).1 := by
  induction turns generalizing core addr with
  | nil => exact ⟨rfl, rfl⟩
  | cons turn rest ih => exact (ldmTurn_stayed bridge core insn mode addr turn).trans (ih ..)

/-- Storing, and loading in user or system mode, leave the user bank alone. -/
theorem ldmTurn_bankUsr {insn mode : Word} (other : (insn.getLsbD 20 && !usesUserBank mode) = false)
    (addr : Word) (turn : Fin 15) :
    (ldmTurn bridge insn mode (core, addr) turn).1.bankUsr = core.bankUsr := by
  unfold ldmTurn transfer
  dsimp only
  split
  · split
    · rename_i load
      rw [load, Bool.true_and] at other
      rw [if_neg (by simp [other])]
      rfl
    · rfl
  · rfl

theorem ldmLoop_bankUsr {insn mode : Word} (other : (insn.getLsbD 20 && !usesUserBank mode) = false)
    (addr : Word) (turns : List (Fin 15)) :
    (turns.foldl (ldmTurn bridge insn mode) (core, addr)).1.bankUsr = core.bankUsr := by
  induction turns generalizing core addr with
  | nil => rfl
  | cons turn rest ih => exact (ih ..).trans (ldmTurn_bankUsr bridge core other addr turn)

/-- A turn of a load in a privileged mode that takes a register of the list. -/
theorem transfer_load {insn mode : Word} (load : insn.getLsbD 20 = true)
    (privileged : usesUserBank mode = false) (addr : Word) (turn : Fin 15) :
    let after := transfer bridge insn mode (core, addr) turn
    after.2 = addr + 4 ∧ after.1.memory = (bridge.read32 core.memory addr).2 ∧
      ∀ index, Banked index → after.1.bankUsr.read index =
        if index = turn.castSucc then (bridge.read32 core.memory addr).1
        else core.bankUsr.read index := by
  intro after
  have reduced : after = transfer bridge insn mode (core, addr) turn := rfl
  unfold transfer at reduced
  dsimp only at reduced
  rw [if_pos load] at reduced
  by_cases banked : Banked turn.castSucc
  · have test : ((turn.castSucc == 13 || turn.castSucc == 14) && !usesUserBank mode) = true := by
      rw [privileged]
      simpa [Banked] using banked
    rw [if_pos test] at reduced
    rw [reduced]
    exact ⟨rfl, rfl, fun index found => ModeBank.read_write found banked _⟩
  · have test : ¬((turn.castSucc == 13 || turn.castSucc == 14) && !usesUserBank mode) = true := by
      rw [privileged]
      simpa [Banked] using banked
    rw [if_neg test] at reduced
    rw [reduced]
    refine ⟨rfl, rfl, fun index found => ?_⟩
    have apart : index ≠ turn.castSucc := by
      intro same
      rw [same] at found
      exact banked found
    rw [if_neg apart]
    rfl

theorem ldmLoop_load {insn mode : Word} (load : insn.getLsbD 20 = true)
    (privileged : usesUserBank mode = false) (addr : Word) (turns : List (Fin 15)) {index : Fin 16}
    (banked : Banked index) :
    (turns.foldl (ldmTurn bridge insn mode) (core, addr)).1.bankUsr.read index =
      (loaded bridge insn turns addr core.memory index).getD (core.bankUsr.read index) := by
  induction turns generalizing core addr with
  | nil => rfl
  | cons turn rest ih =>
    rw [List.foldl_cons, loaded, ldmTurn]
    split
    · obtain ⟨address, memory, bank⟩ := transfer_load bridge core load privileged addr turn
      have reached := ih (transfer bridge insn mode (core, addr) turn).1 (addr + 4)
      rw [memory, bank index banked] at reached
      rw [← address] at reached ⊢
      refine reached.trans ?_
      dsimp only
      cases loaded bridge insn rest _ _ index with
      | some later => rfl
      | none => split <;> rfl
    · exact ih core addr

theorem ldmUsr_spec (insn pc : Word) :
    Stayed core (core.ldmUsr bridge insn pc) ∧
      ∀ index, Banked index → (core.ldmUsr bridge insn pc).bankUsr.read index =
        (core.userLoads bridge insn index).getD (core.bankUsr.read index) := by
  have loop : core.ldmUsr bridge insn pc = ((List.finRange 15).foldl (ldmTurn bridge insn core.mode)
      (core, ldmStart insn (core.jit.r (baseReg insn)))).1.setReg 15 (pc + 4) := rfl
  rw [loop]
  refine ⟨(ldmLoop_stayed bridge core insn core.mode _ _).trans ⟨rfl, rfl⟩, ?_⟩
  intro index banked
  unfold userLoads
  cases kind : insn.getLsbD 20 && !usesUserBank core.mode with
  | true =>
    obtain ⟨load, privileged⟩ := Bool.and_eq_true_iff.mp kind
    rw [if_pos rfl]
    exact ldmLoop_load bridge core load (by simpa using privileged) _ _ banked
  | false =>
    rw [if_neg Bool.false_ne_true]
    exact congrArg (ModeBank.read · index) (ldmLoop_bankUsr bridge core kind _ (List.finRange 15))

end Impl

end ZeeboLle.Jit
