import ZeeboLle.Jit.ArmReference

/-! The fallback handlers against the architecture. The recompiler's one register file shows
the registers of the current mode, and the bank kept beside it those of user mode; r8-r12
have no bank and the privileged modes share r13 and r14. -/
namespace ZeeboLle.Jit

open Unicorn Paging

/-- Memory without peripherals: reading it changes nothing. -/
def flat : MemoryBridge FlatMemory where
  onCode memory _ := memory
  read32 memory addr := (memory.read32 addr, memory)
  write32 memory addr value := memory.write32 addr value

/-- The file, the bank of user mode where the mode has one of its own, and memory. -/
structure Holds (core : Impl FlatMemory) (arm : ArmState) (bank : Bank) : Prop where
  file : ∀ index, core.jit.r index = arm.read bank index
  user : bank ≠ .usr → ∀ index, Banked index → core.bankUsr.read index = arm.reg .usr index
  memory : core.memory = arm.memory

/-- The callbacks' state is what they keep of a processor in a mode of the bank. -/
structure Represents (core : Impl FlatMemory) (arm : ArmState) (bank : Bank) : Prop
    extends Holds core arm bank where
  bank : bankOfMode core.mode = some bank
  curMode : core.curMode = core.mode
  cpsr : core.jit.cpsr = arm.cpsr

/-- What became of an instruction is what was to. -/
def Conforms (before after : Impl FlatMemory) : Verdict → Prop
  | .executed arm => (∃ bank, Represents after arm bank) ∧
      after.fallbackPending = before.fallbackPending
  | .unpredictable => True
  | .refused => after.jit = before.jit ∧ after.bankUsr = before.bankUsr ∧
      after.memory = before.memory ∧ after.fallbackPending = true

/-- An opcode is decoded and executed exactly, in every state with this CPSR and, where it is
a return, this CPSR to return to. -/
def FallbackExact (insn cpsr saved : Word) : Prop :=
  ∀ core arm bank, Represents core arm bank → core.jit.cpsr = cpsr →
    core.memory.read32 (core.jit.r 15) = insn →
    (decode cpsr insn = .rfe → arm.savedCpsr bank insn = saved) →
    Conforms core (core.interpreterFallback flat (core.jit.r 15)) arm.fallback

/-- A masked comparison says what the named bits are. -/
theorem masked_eq_iff (insn mask pattern : Word) :
    insn &&& mask = pattern ↔
      ∀ bit < 32, (insn.getLsbD bit && mask.getLsbD bit) = pattern.getLsbD bit := by
  constructor
  · rintro rfl bit -
    exact (BitVec.getLsbD_and ..).symm
  · intro bits
    ext bit bound
    simpa [BitVec.getLsbD_eq_getElem bound] using bits bit bound

theorem field_eq_iff (insn : Word) (start width : Nat) (value : BitVec width) :
    insn.extractLsb' start width = value ↔
      ∀ bit < width, insn.getLsbD (start + bit) = value.getLsbD bit := by
  constructor
  · rintro rfl bit bound
    simp [bound]
  · intro bits
    ext bit bound
    simpa [BitVec.getLsbD_eq_getElem bound] using bits bit bound

theorem isCps_iff (insn : Word) : Impl.isCps insn = true ↔
    insn.extractLsb' 28 4 = 0b1111#4 ∧ insn.extractLsb' 20 8 = 0b00010000#8 ∧
      insn.getLsbD 16 = false ∧ insn.extractLsb' 9 7 = 0#7 ∧ insn.getLsbD 5 = false := by
  simp only [Impl.isCps, beq_iff_eq, masked_eq_iff, field_eq_iff]
  simp only [Nat.forall_lt_succ_right, Nat.not_lt_zero, IsEmpty.forall_iff, implies_true, true_and]
  simp
  grind

theorem isRfe_iff (insn : Word) : Impl.isRfe insn = true ↔
    insn.extractLsb' 28 4 = 0b1111#4 ∧ insn.extractLsb' 25 3 = 0b100#3 ∧ insn.getLsbD 22 = false ∧
      insn.getLsbD 20 = true ∧ insn.extractLsb' 0 16 = 0b0000101000000000#16 := by
  simp only [Impl.isRfe, beq_iff_eq, masked_eq_iff, field_eq_iff]
  simp only [Nat.forall_lt_succ_right, Nat.not_lt_zero, IsEmpty.forall_iff, implies_true, true_and]
  simp
  grind

theorem isLdmUsr_iff (insn : Word) : Impl.isLdmUsr insn = true ↔
    insn.extractLsb' 25 3 = 0b100#3 ∧ insn.getLsbD 22 = true ∧ insn.getLsbD 21 = false ∧
      insn.getLsbD 15 = false := by
  simp only [Impl.isLdmUsr, Bool.and_eq_true, Bool.not_eq_true', beq_iff_eq, masked_eq_iff,
    field_eq_iff]
  simp only [Nat.forall_lt_succ_right, Nat.not_lt_zero, IsEmpty.forall_iff, implies_true, true_and]
  simp
  grind

theorem thumb_iff (cpsr : Word) : cpsr &&& 0x20#32 ≠ 0 ↔ cpsr.getLsbD 5 = true := by
  rw [ne_eq, masked_eq_iff]
  simp only [Nat.forall_lt_succ_right, Nat.not_lt_zero, IsEmpty.forall_iff, implies_true, true_and]
  simp

theorem isLdmUsr_apart {insn : Word} (isLdmUsr : Impl.isLdmUsr insn = true) :
    Impl.isRfe insn = false := by
  rw [isLdmUsr_iff] at isLdmUsr
  rw [← Bool.not_eq_true, isRfe_iff]
  rintro ⟨-, -, clear, -⟩
  rw [isLdmUsr.2.1] at clear
  cases clear

/-- `1111` in the condition field. -/
def unconditional (insn : Word) : Bool := insn.extractLsb' 28 4 == 0b1111#4

/-- The architecture's kinds in the words of the handlers' masks. -/
theorem decode_eq (cpsr insn : Word) : decode cpsr insn =
    if cpsr.getLsbD 5 then .other
    else if Impl.isCps insn then .cps
    else if Impl.isRfe insn then .rfe
    else if Impl.isLdmUsr insn && !unconditional insn then .userTransfer
    else .other := by
  have cps := isCps_iff insn
  have rfe := isRfe_iff insn
  have ldmUsr := isLdmUsr_iff insn
  unfold decode unconditional
  split
  · rfl
  · by_cases always : insn.extractLsb' 28 4 = 0b1111#4
    · simp only [always, true_and] at cps rfe
      rw [if_pos always]
      simp only [← cps, ← rfe, always, beq_self_eq_true, Bool.not_true, Bool.and_false,
        Bool.false_eq_true, if_false]
    · simp only [always, false_and, iff_false] at cps rfe
      rw [if_neg always, if_neg cps, if_neg rfe]
      simp only [← ldmUsr, beq_eq_false_iff_ne.mpr always, Bool.not_false, Bool.and_true]

/-- The handler that takes an opcode. -/
def handler (cpsr insn : Word) : Impl.Handled :=
  if Impl.isCps insn then .cps insn
  else if cpsr.getLsbD 5 then .refused
  else if Impl.isLdmUsr insn then .ldmUsr insn
  else if Impl.isRfe insn then .rfe insn
  else .refused

variable {core : Impl FlatMemory} {arm : ArmState} {bank : Bank}

theorem interpreterFallback_flat (pc : Word) :
    core.interpreterFallback flat pc =
      core.execute flat (handler core.jit.cpsr (core.memory.read32 pc)) pc := by
  have dispatch : core.dispatch flat pc =
      (handler core.jit.cpsr (core.memory.read32 pc), core.memory) := by
    unfold Impl.dispatch handler
    simp only [Impl.memoryReadCode, Impl.memoryRead32, flat, thumb_iff]
    simp only [apply_ite (Prod.mk · core.memory)]
    congr
  rw [Impl.interpreterFallback_eq, dispatch]

/-- Outside r13 and r14 no bank is the file's home but in FIQ mode. -/
theorem home_of_banked {index : Fin 16} (banked : Banked index) : home bank index = bank :=
  if_pos banked

theorem home_usr (index : Fin 16) : home .usr index = .usr := by
  unfold home
  split
  · rfl
  · rfl

theorem home_of_not_banked {index : Fin 16} (apart : ¬Banked index) (notFiq : bank ≠ .fiq) :
    home bank index = .usr := by
  unfold Banked at apart
  rw [home, if_neg apart, if_neg (fun fiq => notFiq fiq.1)]

theorem home_pc : home bank 15 = .usr := by
  unfold home
  simp

theorem Holds.setReg (holds : Holds core arm bank) (index : Fin 16) (value : Word) :
    Holds (core.setReg index value) (arm.write bank index value) bank := by
  refine ⟨?_, ?_, holds.memory⟩
  · intro another
    rw [ArmState.read_write, ← holds.file another]
    exact Function.update_apply ..
  · intro privileged another banked
    refine (holds.user privileged another banked).trans ?_
    rw [ArmState.write, ArmState.reg_put, if_neg]
    rintro ⟨same, rfl⟩
    rw [home_of_banked banked] at same
    exact privileged same.symm

theorem Holds.setUser (holds : Holds core arm bank) (privileged : bank ≠ .usr) {index : Fin 16}
    (banked : Banked index) (value : Word) :
    Holds { core with bankUsr := core.bankUsr.write index value } (arm.put .usr index value) bank := by
  refine ⟨?_, ?_, holds.memory⟩
  · intro another
    refine (holds.file another).trans ?_
    rw [ArmState.read, ArmState.read, ArmState.reg_put, if_neg]
    rintro ⟨same, rfl⟩
    rw [home_of_banked banked] at same
    exact privileged same
  · intro _ another found
    rw [ModeBank.read_write found banked, ArmState.reg_put, holds.user privileged another found]
    simp

theorem Holds.setMemory (holds : Holds core arm bank) (memory : FlatMemory) :
    Holds { core with memory } { arm with memory } bank := ⟨holds.file, holds.user, rfl⟩

/-- Where the handler finds the register of a list: r13 and r14 with user mode, the others
in the file. -/
def owner (bank : Bank) (index : Fin 16) : Bank :=
  if index = 13 ∨ index = 14 then .usr else home bank index

theorem owner_usr (index : Fin 16) : owner .usr index = .usr := by
  unfold owner
  split
  · rfl
  · exact home_usr index

theorem owner_fiq {index : Fin 16} (low : 8 ≤ index) (high : index ≤ 12) : owner .fiq index = .fiq := by
  have apart : ¬(index = 13 ∨ index = 14) := by
    rintro (rfl | rfl)
    · exact absurd high (by decide)
    · exact absurd high (by decide)
  rw [owner, home, if_neg apart, if_neg apart, if_pos ⟨rfl, low, high⟩]

/-- Only the registers FIQ mode has of its own are not those of user mode. -/
theorem owner_eq_usr {index : Fin 16} (shared : bank = .fiq → ¬(8 ≤ index ∧ index ≤ 12)) :
    owner bank index = .usr := by
  unfold owner home
  split
  · rfl
  · rw [if_neg]
    rintro ⟨fiq, range⟩
    exact shared fiq range

theorem owner_of_banked {index : Fin 16} (banked : Banked index) : owner bank index = .usr :=
  if_pos banked

theorem owner_of_not_banked {index : Fin 16} (apart : ¬Banked index) :
    owner bank index = home bank index := if_neg apart

/-- The handler's test for the bank of user mode. -/
def fromUserBank (bank : Bank) (index : Fin 16) : Bool :=
  (index == 13 || index == 14) && !decide (bank = .usr)

theorem fromUserBank_iff {index : Fin 16} :
    fromUserBank bank index = true ↔ bank ≠ .usr ∧ Banked index := by
  simp [fromUserBank, Banked, and_comm]

/-- Elsewhere the handler goes to the file, which is the right place in user mode too. -/
theorem owner_eq_home {index : Fin 16} (shown : fromUserBank bank index = false) :
    owner bank index = home bank index := by
  by_cases banked : Banked index
  · have user : bank = .usr := by
      by_contra privileged
      rw [fromUserBank_iff.mpr ⟨privileged, banked⟩] at shown
      cases shown
    rw [user, owner_usr, home_usr]
  · exact owner_of_not_banked banked

theorem Holds.owned (holds : Holds core arm bank) (index : Fin 16) :
    (if fromUserBank bank index then core.bankUsr.read index else core.jit.r index) =
      arm.reg (owner bank index) index := by
  split
  · rename_i own
    obtain ⟨privileged, banked⟩ := fromUserBank_iff.mp own
    rw [holds.user privileged index banked, owner_of_banked banked]
  · rename_i shown
    rw [holds.file, ArmState.read, owner_eq_home (by simpa using shown)]

theorem Holds.transfer (holds : Holds core arm bank) {mode : Word}
    (tracked : usesUserBank mode = decide (bank = .usr)) (insn addr : Word) (turn : Fin 15) :
    Holds (Impl.transfer flat insn mode (core, addr) turn).1
        (ArmState.move (insn.getLsbD 20) (owner bank) (arm, addr) turn).1 bank ∧
      (Impl.transfer flat insn mode (core, addr) turn).2 = addr + 4 := by
  have owned := holds.owned turn.castSucc
  have test : ((turn.castSucc == 13 || turn.castSucc == 14) && !usesUserBank mode) =
      fromUserBank bank turn.castSucc := by rw [tracked, fromUserBank]
  unfold Impl.transfer ArmState.move
  dsimp only
  rw [test]
  cases insn.getLsbD 20 with
  | true =>
    dsimp only [Impl.memoryRead32, flat]
    rw [if_pos rfl, if_pos rfl, holds.memory]
    cases own : fromUserBank bank turn.castSucc with
    | true =>
      obtain ⟨privileged, banked⟩ := fromUserBank_iff.mp own
      rw [if_pos rfl, owner_of_banked banked]
      exact ⟨(holds.setMemory arm.memory).setUser privileged banked _, rfl⟩
    | false =>
      rw [if_neg Bool.false_ne_true, owner_eq_home own]
      exact ⟨(holds.setMemory arm.memory).setReg turn.castSucc _, rfl⟩
  | false =>
    rw [if_neg Bool.false_ne_true, if_neg Bool.false_ne_true, owned, holds.memory]
    exact ⟨holds.setMemory _, rfl⟩

theorem Holds.transfers (holds : Holds core arm bank) {mode : Word}
    (tracked : usesUserBank mode = decide (bank = .usr)) (insn addr : Word) (list : List (Fin 15)) :
    Holds (list.foldl (Impl.transfer flat insn mode) (core, addr)).1
      (arm.moves (insn.getLsbD 20) (owner bank) addr list) bank := by
  induction list generalizing core arm addr with
  | nil => exact holds
  | cons turn rest ih =>
    obtain ⟨after, next⟩ := holds.transfer tracked insn addr turn
    have state : Impl.transfer flat insn mode (core, addr) turn =
        ((Impl.transfer flat insn mode (core, addr) turn).1, addr + 4) := Prod.ext rfl next
    rw [List.foldl_cons, ArmState.moves_cons, state]
    exact ih after (addr + 4)

theorem getLsbD_ldmList (insn : Word) (index : Fin 15) :
    (Impl.ldmList insn).getLsbD index = insn.getLsbD index := by
  have low : ∀ index : Fin 15, (0xffff#32).getLsbD index = true := by decide
  rw [Impl.ldmList, BitVec.getLsbD_and, low, Bool.and_true]

/-- The turns of the loop are those of the list. -/
theorem ldmUsr_eq (insn pc : Word) :
    core.ldmUsr flat insn pc =
      ((registerList insn).foldl (Impl.transfer flat insn core.mode)
        (core, Impl.ldmStart insn (core.jit.r (Impl.baseReg insn)))).1.setReg 15 (pc + 4) := by
  have turns : Impl.ldmTurn flat insn core.mode = fun state (index : Fin 15) =>
      if insn.getLsbD index then Impl.transfer flat insn core.mode state index else state := by
    funext state index
    rw [Impl.ldmTurn, getLsbD_ldmList]
  rw [registerList, List.foldl_filter, ← turns]
  rfl

theorem popcount_eq {insn : Word} (noPc : insn.getLsbD 15 = false) :
    Impl.popcount (Impl.ldmList insn) = BitVec.ofNat 32 (registerList insn).length := by
  have bits : List.range 32 = (List.finRange 15).map Fin.val ++ (List.range 17).map (· + 15) := by
    decide
  have none : ((List.range 17).map (· + 15)).countP (Impl.ldmList insn).getLsbD = 0 := by
    rw [List.countP_eq_zero]
    intro bit member
    obtain ⟨above, bound, rfl⟩ := List.mem_map.mp member
    have range := List.mem_range.mp bound
    rw [Impl.ldmList, BitVec.getLsbD_and]
    interval_cases above
    · rw [Nat.zero_add, noPc, Bool.false_and]
      exact Bool.false_ne_true
    all_goals simp
  rw [Impl.popcount, bits, List.countP_append, none, Nat.add_zero, List.countP_map, registerList,
    ← List.countP_eq_length_filter]
  congr 2
  funext index
  exact getLsbD_ldmList insn index

theorem ldmStart_eq {insn : Word} (noPc : insn.getLsbD 15 = false) (base : Word) :
    Impl.ldmStart insn base = lowest insn base (registerList insn).length := by
  unfold Impl.ldmStart lowest
  rw [popcount_eq noPc]
  cases insn.getLsbD 24 with
  | true => cases insn.getLsbD 23 <;> rfl
  | false => cases insn.getLsbD 23 <;> rfl

theorem rfeStart_eq (insn base : Word) : Impl.rfeStart insn base = lowest insn base 2 := by
  unfold Impl.rfeStart lowest
  cases insn.getLsbD 24 with
  | true => cases insn.getLsbD 23 <;> rfl
  | false =>
    cases insn.getLsbD 23 with
    | true => rfl
    | false =>
      change base - 4 = base - 4 * BitVec.ofNat 32 2 + 4
      bv_omega

theorem Represents.tracked (represents : Represents core arm bank) :
    usesUserBank core.mode = decide (bank = .usr) := by
  rw [Bool.eq_iff_iff, usesUserBank_iff, represents.bank, decide_eq_true_iff, Option.some_inj]

/-- What a transfer has nothing to do with. -/
structure Kept (before after : Impl FlatMemory) : Prop where
  cpsr : after.jit.cpsr = before.jit.cpsr
  curMode : after.curMode = before.curMode
  pending : after.fallbackPending = before.fallbackPending

theorem Kept.trans {first second third : Impl FlatMemory} (earlier : Kept first second)
    (later : Kept second third) : Kept first third :=
  ⟨later.cpsr.trans earlier.cpsr, later.curMode.trans earlier.curMode,
    later.pending.trans earlier.pending⟩

theorem transfer_kept (insn mode addr : Word) (turn : Fin 15) :
    Kept core (Impl.transfer flat insn mode (core, addr) turn).1 := by
  unfold Impl.transfer
  dsimp only
  split
  · split
    · exact ⟨rfl, rfl, rfl⟩
    · exact ⟨rfl, rfl, rfl⟩
  · exact ⟨rfl, rfl, rfl⟩

theorem transfers_kept (insn mode addr : Word) (list : List (Fin 15)) :
    Kept core (list.foldl (Impl.transfer flat insn mode) (core, addr)).1 := by
  induction list generalizing core addr with
  | nil => exact ⟨rfl, rfl, rfl⟩
  | cons turn rest ih => exact (transfer_kept insn mode addr turn).trans (ih _)

theorem ldmUsr_kept (core : Impl FlatMemory) (insn pc : Word) : Kept core (core.ldmUsr flat insn pc) := by
  rw [ldmUsr_eq]
  exact (transfers_kept ..).trans ⟨rfl, rfl, rfl⟩

theorem Kept.mode {after : Impl FlatMemory} (kept : Kept core after) : after.mode = core.mode := by
  rw [Impl.mode, Impl.mode, kept.cpsr]

/-- PC is in no list. -/
theorem castSucc_ne_pc (index : Fin 15) : index.castSucc ≠ 15 := fun same =>
  Nat.ne_of_lt index.isLt (congrArg Fin.val same)

theorem moves_pc {load : Bool} {owners : Fin 16 → Bank} {addr : Word} {list : List (Fin 15)} :
    (arm.moves load owners addr list).read bank 15 = arm.read bank 15 := by
  cases load with
  | true =>
    refine ArmState.moves_load_apart ?_
    rintro head - ⟨-, same⟩
    exact castSucc_ne_pc head same.symm
  | false => rw [ArmState.moves_store]; rfl

/-- What the handler makes of a transfer: it takes the registers where it finds them. -/
def taken (arm : ArmState) (bank : Bank) (insn : Word) : ArmState :=
  arm.moves (insn.getLsbD 20) (owner bank)
    (lowest insn (arm.read bank (baseIndex insn)) (registerList insn).length) (registerList insn)

theorem Represents.ldmUsr (represents : Represents core arm bank) {insn : Word}
    (noPc : insn.getLsbD 15 = false) :
    Represents (core.ldmUsr flat insn (core.jit.r 15)) ((taken arm bank insn).advance bank) bank := by
  have kept := ldmUsr_kept core insn (core.jit.r 15)
  refine ⟨?_, kept.mode ▸ represents.bank, ?_, ?_⟩
  · rw [ldmUsr_eq, ldmStart_eq noPc, represents.file, represents.file, ArmState.advance, taken, moves_pc]
    exact (represents.transfers represents.tracked insn _ _).setReg 15 _
  · rw [kept.curMode, kept.mode, represents.curMode]
  · rw [kept.cpsr, ArmState.advance_cpsr, taken, ArmState.moves_cpsr, represents.cpsr]

/-- The bank a mode change can be made to with one file: the same, or that of user mode
from a mode without registers of its own but r13 and r14. -/
def Reaches (bank : Bank) (newMode : Word) : Prop :=
  ∀ target, bankOfMode newMode = some target → target = bank ∨ target = .usr ∧ bank ≠ .fiq

instance (bank : Bank) (newMode : Word) : Decidable (Reaches bank newMode) :=
  decidable_of_iff (∀ target ∈ bankOfMode newMode, target = bank ∨ target = .usr ∧ bank ≠ .fiq)
    Iff.rfl

/-- Nothing else is switched. -/
theorem switchMode_apart (core : Impl FlatMemory) (newMode : Word) : (core.switchMode newMode).memory = core.memory ∧
    (core.switchMode newMode).fallbackPending = core.fallbackPending ∧
    ∀ index, ¬Banked index → (core.switchMode newMode).jit.r index = core.jit.r index := by
  unfold Impl.switchMode
  split
  · exact ⟨rfl, rfl, fun _ _ => rfl⟩
  · split
    · split
      · refine ⟨rfl, rfl, fun index apart => ?_⟩
        simp [Impl.setReg]
      · exact ⟨rfl, rfl, fun _ _ => rfl⟩
    · split
      · refine ⟨rfl, rfl, fun index apart => ?_⟩
        simp [Impl.setReg, not_or.mp apart]
      · exact ⟨rfl, rfl, fun _ _ => rfl⟩

theorem Holds.switchMode (holds : Holds core arm bank) {newMode : Word} {target : Bank}
    (tracked : usesUserBank core.curMode = decide (bank = .usr)) (valid : bankOfMode newMode = some target)
    (reaches : target = bank ∨ target = .usr ∧ bank ≠ .fiq) :
    Holds (core.switchMode newMode) arm target := by
  have entering : usesUserBank newMode = decide (target = .usr) := by
    rw [Bool.eq_iff_iff, usesUserBank_iff, valid, decide_eq_true_iff, Option.some_inj]
  have switched := core.switchMode_switched newMode
  obtain ⟨memory, -, apart⟩ := switchMode_apart core newMode
  refine ⟨?_, ?_, memory.trans holds.memory⟩
  · intro index
    by_cases banked : Banked index
    · rw [switched.file index banked, entering, tracked, ArmState.read, home_of_banked banked]
      rcases reaches with rfl | ⟨rfl, -⟩
      · rw [if_neg (by simp), holds.file, ArmState.read, home_of_banked banked]
      · by_cases user : bank = .usr
        · subst user
          rw [if_neg (by simp), holds.file, ArmState.read, home_of_banked banked]
        · rw [if_pos (by simp [user]), holds.user user index banked]
    · rw [apart index banked, holds.file, ArmState.read, ArmState.read]
      rcases reaches with rfl | ⟨rfl, notFiq⟩
      · rfl
      · rw [home_of_not_banked banked notFiq, home_usr]
  · intro privileged index banked
    have same : target = bank := reaches.resolve_right fun other => privileged other.1
    subst same
    rw [switched.bankUsr index banked, if_neg (by simp [tracked, privileged]),
      holds.user privileged index banked]

theorem shifted_bit (insn : Word) (bit : Nat) :
    (insn >>> bit) &&& 1#32 ≠ 0 ↔ insn.getLsbD bit = true := by
  rw [ne_eq, masked_eq_iff]
  constructor
  · intro present
    by_contra clear
    refine present fun other _ => ?_
    rw [BitVec.getLsbD_ushiftRight]
    cases other with
    | zero => simpa using clear
    | succ above => simp
  · intro set absent
    have low := absent 0 (by decide)
    simp [set] at low

theorem cpsAffected_bit (insn : Word) (bit : Fin 32) : (Impl.cpsAffected insn).getLsbD bit =
    ((bit.val == 8 || bit.val == 7 || bit.val == 6) && insn.getLsbD bit) := by
  have named : ∀ a i f : Bool, ∀ bit : Fin 32,
      ((if a then 0x100#32 else 0#32) ||| (if i then 0x80#32 else 0#32) |||
        (if f then 0x40#32 else 0#32)).getLsbD bit =
      (bit.val == 8 && a || bit.val == 7 && i || bit.val == 6 && f) := by decide +kernel
  simp only [Impl.cpsAffected, shifted_bit]
  rw [named]
  grind

/-- imod is 10 to clear masks and 11 to set them. -/
theorem imod_iff (insn : Word) (set : Bool) :
    (insn >>> 18) &&& 3#32 = (if set then 0b11#32 else 0b10#32) ↔
      insn.getLsbD 19 = true ∧ insn.getLsbD 18 = set := by
  rw [masked_eq_iff]
  cases set
  · simp only [Nat.forall_lt_succ_right, Nat.not_lt_zero, IsEmpty.forall_iff, implies_true, true_and]
    simp
    grind
  · simp only [Nat.forall_lt_succ_right, Nat.not_lt_zero, IsEmpty.forall_iff, implies_true, true_and]
    simp
    grind

theorem cpsMasked_bit (cpsr insn : Word) (bit : Fin 32) : (Impl.cpsMasked cpsr insn).getLsbD bit =
    if (bit.val == 8 || bit.val == 7 || bit.val == 6) && (insn.getLsbD 19 && insn.getLsbD bit) then
      insn.getLsbD 18
    else cpsr.getLsbD bit := by
  have clears := imod_iff insn false
  have sets := imod_iff insn true
  have inside := bit.isLt
  rw [if_neg Bool.false_ne_true] at clears
  rw [if_pos rfl] at sets
  unfold Impl.cpsMasked
  simp only [clears, sets]
  split
  · rename_i both
    rw [BitVec.getLsbD_and, BitVec.getLsbD_not, cpsAffected_bit, both.1, both.2]
    simp only [inside]
    grind
  · split
    · rename_i both
      rw [BitVec.getLsbD_or, cpsAffected_bit, both.1, both.2]
      grind
    · grind

theorem cpsCpsr_bit (cpsr insn : Word) (bit : Fin 32) : (cpsCpsr cpsr insn).getLsbD bit =
    if bit.val < 5 then (if insn.getLsbD 17 then insn.getLsbD bit else cpsr.getLsbD bit)
    else if (bit.val == 8 || bit.val == 7 || bit.val == 6) && (insn.getLsbD 19 && insn.getLsbD bit) then
      insn.getLsbD 18
    else cpsr.getLsbD bit := by
  obtain ⟨bit, inside⟩ := bit
  unfold cpsCpsr cpsMask
  simp only [BitVec.getLsbD_append]
  rw [apply_ite (fun field : BitVec 5 => field.getLsbD bit)]
  interval_cases bit
  all_goals simp

/-- The handler computes the CPSR of a privileged CPS, whatever the mode it is executed in. -/
theorem cps_cpsr (core : Impl FlatMemory) (insn pc : Word) : (core.cps insn pc).jit.cpsr = cpsCpsr core.jit.cpsr insn := by
  have modeBits : ∀ bit : Fin 32, (0x1f#32).getLsbD bit = decide (bit.val < 5) := by decide
  have changes : Impl.cpsChangesMode insn = insn.getLsbD 17 := by
    rw [Bool.eq_iff_iff, ← shifted_bit]
    simp [Impl.cpsChangesMode]
  refine BitVec.eq_of_getLsbD_eq fun bit inside => ?_
  have bitwise := cpsCpsr_bit core.jit.cpsr insn ⟨bit, inside⟩
  have masked := cpsMasked_bit core.jit.cpsr insn ⟨bit, inside⟩
  have modes := modeBits ⟨bit, inside⟩
  dsimp only at bitwise masked modes
  rw [bitwise]
  unfold Impl.cps
  dsimp only
  rw [changes]
  cases insn.getLsbD 17 with
  | true =>
    rw [if_pos rfl, if_pos rfl]
    change (Impl.cpsMasked core.jit.cpsr insn &&& ~~~0x1f#32 ||| insn &&& 0x1f#32).getLsbD bit = _
    rw [BitVec.getLsbD_or, BitVec.getLsbD_and, BitVec.getLsbD_and, BitVec.getLsbD_not, masked, modes]
    grind
  | false =>
    rw [if_neg Bool.false_ne_true, if_neg Bool.false_ne_true]
    change (Impl.cpsMasked core.jit.cpsr insn).getLsbD bit = _
    rw [masked]
    grind

/-- PC is the same register in every mode. -/
theorem write_pc (target : Bank) (value : Word) : arm.write bank 15 value = arm.write target 15 value := by
  rw [ArmState.write, ArmState.write, home_pc, home_pc]

theorem usesUserBank_curMode (represents : Represents core arm bank) :
    usesUserBank core.curMode = decide (bank = .usr) := by
  rw [represents.curMode, represents.tracked]

theorem cps_kept (core : Impl FlatMemory) (insn pc : Word) : (core.cps insn pc).fallbackPending = core.fallbackPending ∧
    (core.cps insn pc).curMode = if Impl.cpsChangesMode insn then insn &&& 0x1f#32 else core.curMode := by
  unfold Impl.cps
  dsimp only
  split
  · exact ⟨(switchMode_apart _ _).2.1, (core.switchMode_switched _).curMode⟩
  · exact ⟨rfl, rfl⟩

theorem cps_mode (core : Impl FlatMemory) (insn pc : Word) : (core.cps insn pc).mode =
    if Impl.cpsChangesMode insn then insn &&& 0x1f#32 else core.mode := by
  split
  · rename_i asks
    exact (core.cps_entered asks pc).mode
  · rename_i keeps
    exact (core.cps_stayed (by simpa using keeps) pc).1.mode

/-- A change of mode within reach is made as the processor makes it. -/
theorem Represents.cps (represents : Represents core arm bank) {insn : Word} {target : Bank}
    (valid : bankOfMode (cpsCpsr arm.cpsr insn &&& 0x1f#32) = some target)
    (reaches : Reaches bank (cpsCpsr arm.cpsr insn &&& 0x1f#32)) :
    Represents (core.cps insn (core.jit.r 15))
      { arm.advance bank with cpsr := cpsCpsr arm.cpsr insn } target := by
  have cpsr := cps_cpsr core insn (core.jit.r 15)
  have mode : (core.cps insn (core.jit.r 15)).mode = cpsCpsr arm.cpsr insn &&& 0x1f#32 := by
    rw [Impl.mode, cpsr, represents.cpsr]
  have changed := cps_mode core insn (core.jit.r 15)
  have reached := reaches target valid
  rw [← mode, changed] at valid
  refine ⟨?_, by rw [mode, ← mode, changed, valid], ?_, by rw [cpsr, represents.cpsr]⟩
  · rw [ArmState.advance, write_pc target, represents.file]
    unfold Impl.cps
    dsimp only
    split
    · rename_i asks
      rw [if_pos asks] at valid
      have switched := represents.toHolds.switchMode (usesUserBank_curMode represents) valid reached
      have after := switched.setReg 15 (arm.read bank 15 + 4)
      exact ⟨after.file, after.user, after.memory⟩
    · rename_i keeps
      rw [if_neg keeps, represents.bank, Option.some_inj] at valid
      subst valid
      have after := represents.toHolds.setReg 15 (arm.read bank 15 + 4)
      exact ⟨after.file, after.user, after.memory⟩
  · rw [(cps_kept ..).2, changed, represents.curMode]

theorem Holds.rfeWriteback (holds : Holds core arm bank) (insn : Word) :
    Holds (core.rfeWriteback insn (core.jit.r (Impl.baseReg insn))) (arm.rfeWriteback bank insn) bank := by
  unfold Impl.rfeWriteback ArmState.rfeWriteback
  dsimp only
  rw [holds.file]
  split
  · exact holds.setReg _ _
  · exact holds

theorem rfe_eq (holds : Holds core arm bank) (insn : Word) : core.rfe flat insn =
    (((core.rfeWriteback insn (core.jit.r (Impl.baseReg insn))).switchMode
      (arm.savedCpsr bank insn &&& 0x1f#32)).setCpsr (arm.savedCpsr bank insn)).setReg 15
        (arm.memory.read32 (arm.frame bank insn)) := by
  have frame : core.rfeFrame flat insn =
      (arm.memory.read32 (arm.frame bank insn), arm.savedCpsr bank insn, core) := by
    unfold Impl.rfeFrame
    dsimp only [Impl.memoryRead32, flat]
    rw [rfeStart_eq, ArmState.savedCpsr, ArmState.frame, ← holds.memory, ← holds.file]
    rfl
  unfold Impl.rfe
  rw [frame]

theorem rfe_kept (core : Impl FlatMemory) (insn base : Word) : Kept core (core.rfeWriteback insn base) := by
  unfold Impl.rfeWriteback
  split
  · exact ⟨rfl, rfl, rfl⟩
  · exact ⟨rfl, rfl, rfl⟩

/-- A return within reach is made as the processor makes it. -/
theorem Represents.rfe (represents : Represents core arm bank) {insn : Word} {target : Bank}
    (valid : bankOfMode (arm.savedCpsr bank insn &&& 0x1f#32) = some target)
    (reaches : Reaches bank (arm.savedCpsr bank insn &&& 0x1f#32)) :
    Represents (core.rfe flat insn)
      { (arm.rfeWriteback bank insn).write bank 15 (arm.memory.read32 (arm.frame bank insn)) with
        cpsr := arm.savedCpsr bank insn } target := by
  have kept := rfe_kept core insn (core.jit.r (Impl.baseReg insn))
  have tracked := usesUserBank_curMode represents
  rw [← kept.curMode] at tracked
  rw [rfe_eq represents.toHolds]
  refine ⟨?_, valid, ?_, rfl⟩
  · rw [write_pc target]
    have switched := (represents.toHolds.rfeWriteback insn).switchMode tracked valid (reaches target valid)
    have after := switched.setReg 15 (arm.memory.read32 (arm.frame bank insn))
    exact ⟨after.file, after.user, after.memory⟩
  · exact (Impl.switchMode_switched _ _).curMode

end ZeeboLle.Jit
