import ZeeboLle.Jit.Banks
import ZeeboLle.Paging.Flat

/-! The system instructions of ARMv6 that a recompiler may hand back: CPS, LDM and STM of user
registers, and RFE. Every bank has its registers, an instruction is what its encoding says
in ARM state, and what the architecture leaves open is a verdict of its own. -/
namespace ZeeboLle.Jit

open Unicorn Paging

/-- Where a mode keeps a register: r13 and r14 in its bank, r8-r12 apart in FIQ mode alone. -/
def home (bank : Bank) (index : Fin 16) : Bank :=
  if index = 13 ∨ index = 14 then bank
  else if bank = .fiq ∧ 8 ≤ index ∧ index ≤ 12 then .fiq
  else .usr

/-- The registers of every bank, CPSR and memory. -/
structure ArmState where
  reg : Bank → Fin 16 → Word
  cpsr : Word
  memory : FlatMemory

/-- What the architecture says of an instruction handed back: its effect, nothing, or that
it is none of those to execute. -/
inductive Verdict where
  | executed (arm : ArmState)
  | unpredictable
  | refused

/-- The four kinds of opcode. -/
inductive Instruction where
  | cps | userTransfer | rfe | other
deriving DecidableEq, Repr

/-- The encodings, in ARM state:
`1111 00010000 imod mmod 0 0000000 A I F 0 mode` is CPS,
`1111 100 P U 0 W 1 Rn 0000101000000000` is RFE, and
`cond 100 P U 1 0 L Rn 0 list` transfers user registers unless cond is `1111`. -/
def decode (cpsr insn : Word) : Instruction :=
  if cpsr.getLsbD 5 then .other
  else if insn.extractLsb' 28 4 = 0b1111#4 then
    if insn.extractLsb' 20 8 = 0b00010000#8 ∧ insn.getLsbD 16 = false ∧
        insn.extractLsb' 9 7 = 0#7 ∧ insn.getLsbD 5 = false then .cps
    else if insn.extractLsb' 25 3 = 0b100#3 ∧ insn.getLsbD 22 = false ∧ insn.getLsbD 20 = true ∧
        insn.extractLsb' 0 16 = 0b0000101000000000#16 then .rfe
    else .other
  else if insn.extractLsb' 25 3 = 0b100#3 ∧ insn.getLsbD 22 = true ∧ insn.getLsbD 21 = false ∧
      insn.getLsbD 15 = false then .userTransfer
  else .other

/-- `ConditionPassed`, from N, Z, C and V. -/
def conditionPassed (cpsr insn : Word) : Bool :=
  let n := cpsr.getLsbD 31
  let z := cpsr.getLsbD 30
  let c := cpsr.getLsbD 29
  let v := cpsr.getLsbD 28
  match (insn.extractLsb' 28 4).toNat with
  | 0 => z
  | 1 => !z
  | 2 => c
  | 3 => !c
  | 4 => n
  | 5 => !n
  | 6 => v
  | 7 => !v
  | 8 => c && !z
  | 9 => !c || z
  | 10 => n == v
  | 11 => n != v
  | 12 => !z && n == v
  | 13 => z || n != v
  | _ => true

/-- The register in bits 16 to 19. -/
def baseIndex (insn : Word) : Fin 16 := (insn.extractLsb' 16 4).toFin

/-- The registers of a list, lowest first. -/
def registerList (insn : Word) : List (Fin 15) := (List.finRange 15).filter fun index => insn.getLsbD index

/-- The lowest address of `count` words at a base: IB, IA, DB and DA, by P and U. -/
def lowest (insn base : Word) (count : Nat) : Word :=
  match insn.getLsbD 24, insn.getLsbD 23 with
  | true, true => base + 4
  | false, true => base
  | true, false => base - 4 * BitVec.ofNat 32 count
  | false, false => base - 4 * BitVec.ofNat 32 count + 4

/-- A mask bit after a CPS that names it: imod[1] lets imod[0] in. -/
def cpsMask (cpsr insn : Word) (bit : Nat) : BitVec 1 :=
  BitVec.ofBool (if insn.getLsbD 19 && insn.getLsbD bit then insn.getLsbD 18 else cpsr.getLsbD bit)

/-- CPSR after a CPS that may change it: the masks A, I and F, and with mmod the mode. -/
def cpsCpsr (cpsr insn : Word) : Word :=
  cpsr.extractLsb' 9 23 ++ cpsMask cpsr insn 8 ++ cpsMask cpsr insn 7 ++ cpsMask cpsr insn 6 ++
    cpsr.extractLsb' 5 1 ++
    (if insn.getLsbD 17 then insn.extractLsb' 0 5 else cpsr.extractLsb' 0 5)

namespace ArmState

variable (arm : ArmState)

/-- CPSR[4:0]. -/
def mode : Word := arm.cpsr &&& 0x1f#32

/-- A register as a mode of the bank sees it. -/
def read (bank : Bank) (index : Fin 16) : Word := arm.reg (home bank index) index

def put (owner : Bank) (index : Fin 16) (value : Word) : ArmState :=
  { arm with reg := Function.update arm.reg owner (Function.update (arm.reg owner) index value) }

def write (bank : Bank) (index : Fin 16) (value : Word) : ArmState :=
  arm.put (home bank index) index value

/-- To the next instruction. -/
def advance (bank : Bank) : ArmState := arm.write bank 15 (arm.read bank 15 + 4)

/-- A reserved mode is not one to enter. -/
def entered : Verdict := if bankOfMode arm.mode = none then .unpredictable else .executed arm

/-- In user mode CPS does nothing. -/
def cps (bank : Bank) (insn : Word) : Verdict :=
  if arm.mode = 0x10#32 then .executed (arm.advance bank)
  else ({ arm.advance bank with cpsr := cpsCpsr arm.cpsr insn } : ArmState).entered

/-- One register of a transfer, taken from the bank that owns it. -/
def move (load : Bool) (owner : Fin 16 → Bank) (state : ArmState × Word) (index : Fin 15) :
    ArmState × Word :=
  let (arm, addr) := state
  let index := index.castSucc
  if load then (arm.put (owner index) index (arm.memory.read32 addr), addr + 4)
  else ({ arm with memory := arm.memory.write32 addr (arm.reg (owner index) index) }, addr + 4)

def moves (load : Bool) (owner : Fin 16 → Bank) (addr : Word) (list : List (Fin 15)) : ArmState :=
  (list.foldl (move load owner) (arm, addr)).1

/-- LDM and STM of user registers, under their condition. -/
def userTransfer (bank : Bank) (insn : Word) : Verdict :=
  if baseIndex insn = 15 then .unpredictable
  else if conditionPassed arm.cpsr insn then
    let list := registerList insn
    let start := lowest insn (arm.read bank (baseIndex insn)) list.length
    .executed ((arm.moves (insn.getLsbD 20) (fun _ => .usr) start list).advance bank)
  else .executed (arm.advance bank)

/-- The saved PC; the saved CPSR is in the word above. -/
def frame (bank : Bank) (insn : Word) : Word := lowest insn (arm.read bank (baseIndex insn)) 2

def savedCpsr (bank : Bank) (insn : Word) : Word := arm.memory.read32 (arm.frame bank insn + 4)

def rfeWriteback (bank : Bank) (insn : Word) : ArmState :=
  let base := arm.read bank (baseIndex insn)
  if insn.getLsbD 21 then
    arm.write bank (baseIndex insn) (if insn.getLsbD 23 then base + 8 else base - 8)
  else arm

def rfe (bank : Bank) (insn : Word) : Verdict :=
  if arm.mode = 0x10#32 ∨ baseIndex insn = 15 then .unpredictable
  else
    let returned := (arm.rfeWriteback bank insn).write bank 15 (arm.memory.read32 (arm.frame bank insn))
    ({ returned with cpsr := arm.savedCpsr bank insn } : ArmState).entered

def perform (bank : Bank) (insn : Word) : Instruction → Verdict
  | .cps => arm.cps bank insn
  | .userTransfer => arm.userTransfer bank insn
  | .rfe => arm.rfe bank insn
  | .other => .refused

/-- What is to become of the instruction at PC. -/
def fallback : Verdict :=
  match bankOfMode arm.mode with
  | none => .unpredictable
  | some bank =>
    let insn := arm.memory.read32 (arm.read bank 15)
    arm.perform bank insn (decode arm.cpsr insn)

variable {arm} {bank owner other : Bank} {index another : Fin 16} {value : Word}

theorem reg_put : (arm.put owner index value).reg other another =
    if other = owner ∧ another = index then value else arm.reg other another := by
  unfold put
  dsimp only
  by_cases same : other = owner
  · subst same
    rw [Function.update_self, Function.update_apply]
    simp
  · rw [Function.update_of_ne same, if_neg (fun both => same both.1)]

theorem read_write : (arm.write bank index value).read bank another =
    if another = index then value else arm.read bank another := by
  unfold read write
  rw [reg_put]
  by_cases same : another = index
  · subst same
    simp
  · simp [same]

@[simp] theorem put_memory : (arm.put owner index value).memory = arm.memory := rfl

@[simp] theorem put_cpsr : (arm.put owner index value).cpsr = arm.cpsr := rfl

@[simp] theorem write_memory : (arm.write bank index value).memory = arm.memory := rfl

@[simp] theorem write_cpsr : (arm.write bank index value).cpsr = arm.cpsr := rfl

@[simp] theorem advance_memory : (arm.advance bank).memory = arm.memory := rfl

@[simp] theorem advance_cpsr : (arm.advance bank).cpsr = arm.cpsr := rfl

theorem advance_read (notPc : another ≠ 15) (target : Bank) :
    (arm.advance bank).reg target another = arm.reg target another :=
  reg_put.trans (if_neg fun both => notPc both.2)

variable {insn : Word} {target : Bank}

theorem entered_of_some (valid : bankOfMode arm.mode = some target) : arm.entered = .executed arm :=
  if_neg (valid ▸ Option.some_ne_none target)

theorem cps_user (user : arm.mode = 0x10#32) : arm.cps bank insn = .executed (arm.advance bank) :=
  if_pos user

theorem cps_privileged (privileged : arm.mode ≠ 0x10#32)
    (valid : bankOfMode (cpsCpsr arm.cpsr insn &&& 0x1f#32) = some target) :
    arm.cps bank insn = .executed { arm.advance bank with cpsr := cpsCpsr arm.cpsr insn } :=
  (if_neg privileged).trans (entered_of_some valid)

theorem userTransfer_passed (base : baseIndex insn ≠ 15) (passed : conditionPassed arm.cpsr insn = true) :
    arm.userTransfer bank insn = .executed ((arm.moves (insn.getLsbD 20) (fun _ => .usr)
      (lowest insn (arm.read bank (baseIndex insn)) (registerList insn).length)
      (registerList insn)).advance bank) :=
  (if_neg base).trans (if_pos passed)

theorem userTransfer_failed (base : baseIndex insn ≠ 15) (failed : ¬conditionPassed arm.cpsr insn = true) :
    arm.userTransfer bank insn = .executed (arm.advance bank) :=
  (if_neg base).trans (if_neg failed)

theorem rfe_defined (privileged : arm.mode ≠ 0x10#32) (base : baseIndex insn ≠ 15)
    (valid : bankOfMode (arm.savedCpsr bank insn &&& 0x1f#32) = some target) :
    arm.rfe bank insn = .executed
      { (arm.rfeWriteback bank insn).write bank 15 (arm.memory.read32 (arm.frame bank insn)) with
        cpsr := arm.savedCpsr bank insn } :=
  (if_neg (not_or.mpr ⟨privileged, base⟩)).trans (entered_of_some valid)

variable {load : Bool} {owners : Fin 16 → Bank} {addr : Word} {list : List (Fin 15)}

theorem moves_cons {head : Fin 15} : arm.moves load owners addr (head :: list) =
    (move load owners (arm, addr) head).1.moves load owners (addr + 4) list := by
  cases load <;> rfl

/-- A transfer leaves CPSR alone. -/
theorem moves_cpsr : (arm.moves load owners addr list).cpsr = arm.cpsr := by
  induction list generalizing arm addr with
  | nil => rfl
  | cons head rest ih => cases load <;> exact ih

/-- A store puts the registers in a row. -/
theorem moves_store : arm.moves false owners addr list =
    { arm with memory :=
        arm.memory.writeWords addr (list.map fun index => arm.reg (owners index.castSucc) index.castSucc) } := by
  induction list generalizing arm addr with
  | nil => rfl
  | cons head rest ih => exact ih

/-- A load leaves alone what the list does not name. -/
theorem moves_load_apart (apart : ∀ head ∈ list, ¬(owner = owners head.castSucc ∧ index = head.castSucc)) :
    (arm.moves true owners addr list).reg owner index = arm.reg owner index := by
  induction list generalizing arm addr with
  | nil => rfl
  | cons head rest ih =>
    rw [moves_cons, ih (fun later member => apart later (by simp [member]))]
    exact (reg_put ..).trans (if_neg (apart head (by simp)))

/-- With the owners the same, so is the transfer. -/
theorem moves_congr {others : Fin 16 → Bank}
    (same : ∀ index ∈ list, owners index.castSucc = others index.castSucc) :
    arm.moves load owners addr list = arm.moves load others addr list := by
  induction list generalizing arm addr with
  | nil => rfl
  | cons head rest ih =>
    have step : move load owners (arm, addr) head = move load others (arm, addr) head := by
      unfold move
      dsimp only
      rw [same head (by simp)]
    rw [moves_cons, moves_cons, step]
    exact ih fun index member => same index (by simp [member])

/-- A loaded register holds a word of memory. -/
theorem moves_load_word {head : Fin 15} (member : head ∈ list) :
    ∃ cell, (arm.moves true owners addr list).reg (owners head.castSucc) head.castSucc =
      arm.memory.read32 cell := by
  induction list generalizing arm addr with
  | nil => cases member
  | cons first rest ih =>
    rw [moves_cons]
    by_cases later : head ∈ rest
    · exact ih later
    · have here : head = first := (List.mem_cons.mp member).resolve_right later
      subst here
      refine ⟨addr, ?_⟩
      rw [moves_load_apart]
      · exact (reg_put ..).trans (if_pos ⟨rfl, rfl⟩)
      · rintro other found ⟨-, same⟩
        rw [Fin.castSucc_inj.mp same] at later
        exact later found

end ArmState

end ZeeboLle.Jit
