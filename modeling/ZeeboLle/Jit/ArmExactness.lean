import ZeeboLle.Jit.ArmFallback

/-! When the fallback handlers do what the architecture asks: an exact condition on the opcode,
CPSR and, for a return, the CPSR to return to. Outside it a processor that shows every
register tells the two apart. -/
namespace ZeeboLle.Jit

open Unicorn Paging ZeeboLle.System

variable {core : Impl FlatMemory} {arm other : ArmState} {bank target : Bank}

/-- The architecture's kinds and the handlers that take them. -/
theorem decode_cases (cpsr insn : Word) :
    (decode cpsr insn = .cps ∧ handler cpsr insn = .cps insn) ∨
      (decode cpsr insn = .userTransfer ∧ handler cpsr insn = .ldmUsr insn ∧
        insn.getLsbD 15 = false) ∨
      (decode cpsr insn = .rfe ∧ handler cpsr insn = .rfe insn) ∨
      (decode cpsr insn = .other ∧ (handler cpsr insn = .cps insn ∨
        handler cpsr insn = .ldmUsr insn ∨ handler cpsr insn = .refused)) := by
  rw [decode_eq]
  unfold handler
  cases isCps : Impl.isCps insn with
  | true =>
    cases thumb : cpsr.getLsbD 5 with
    | true => simp
    | false => simp
  | false =>
    cases thumb : cpsr.getLsbD 5 with
    | true => simp
    | false =>
      cases isLdmUsr : Impl.isLdmUsr insn with
      | true =>
        have noPc := ((isLdmUsr_iff insn).mp isLdmUsr).2.2.2
        rw [isLdmUsr_apart isLdmUsr]
        cases unconditional insn with
        | true => simp
        | false => simpa using noPc
      | false =>
        cases isRfe : Impl.isRfe insn with
        | true => simp
        | false => simp

/-- CPS in user mode asks for nothing new, and elsewhere for a mode within reach. A transfer
has its condition passed and in FIQ mode names none of the registers of that mode, unless it
names none at all. A return is to a mode within reach. Anything else is left alone. -/
def ExactFor (bank : Bank) (insn cpsr saved : Word) : Instruction → Prop
  | .cps =>
    (cpsr &&& 0x1f#32 = 0x10#32 → cpsCpsr cpsr insn = cpsr) ∧
      (cpsr &&& 0x1f#32 ≠ 0x10#32 → Reaches bank (cpsCpsr cpsr insn &&& 0x1f#32))
  | .userTransfer =>
    baseIndex insn = 15 ∨ registerList insn = [] ∨
      conditionPassed cpsr insn = true ∧
        (bank = .fiq → ∀ index ∈ registerList insn, ¬(8 ≤ index.val ∧ index.val ≤ 12))
  | .rfe => cpsr &&& 0x1f#32 = 0x10#32 ∨ baseIndex insn = 15 ∨ Reaches bank (saved &&& 0x1f#32)
  | .other => handler cpsr insn = .refused

/-- The condition on an opcode, CPSR and the CPSR to return to. -/
def ExactWhen (insn cpsr saved : Word) : Prop :=
  ∀ bank, bankOfMode (cpsr &&& 0x1f#32) = some bank →
    ExactFor bank insn cpsr saved (decode cpsr insn)

instance (bank : Bank) (insn cpsr saved : Word) (kind : Instruction) :
    Decidable (ExactFor bank insn cpsr saved kind) := by
  cases kind
  all_goals
    unfold ExactFor
    infer_instance

instance (insn cpsr saved : Word) : Decidable (ExactWhen insn cpsr saved) :=
  decidable_of_iff (∀ bank ∈ bankOfMode (cpsr &&& 0x1f#32),
    ExactFor bank insn cpsr saved (decode cpsr insn)) Iff.rfl

theorem Represents.mode_eq (represents : Represents core arm bank) : arm.mode = core.mode := by
  rw [ArmState.mode, ← represents.cpsr]
  rfl

/-- What is asked of a handler. -/
theorem conforms_iff {insn : Word} (represents : Represents core arm bank)
    (fetched : core.memory.read32 (core.jit.r 15) = insn) :
    Conforms core (core.interpreterFallback flat (core.jit.r 15)) arm.fallback ↔
      Conforms core (core.execute flat (handler core.jit.cpsr insn) (core.jit.r 15))
        (arm.perform bank insn (decode core.jit.cpsr insn)) := by
  rw [interpreterFallback_flat, fetched]
  rw [represents.memory, represents.file] at fetched
  unfold ArmState.fallback
  rw [represents.mode_eq, represents.bank]
  dsimp only
  rw [fetched, represents.cpsr]

theorem cps_conforms (represents : Represents core arm bank) {insn : Word}
    (exact : ExactFor bank insn core.jit.cpsr 0 .cps) :
    Conforms core (core.cps insn (core.jit.r 15)) (arm.cps bank insn) := by
  rw [represents.cpsr] at exact
  have mode : bankOfMode arm.mode = some bank := represents.mode_eq ▸ represents.bank
  have pending := (cps_kept core insn (core.jit.r 15)).1
  unfold ArmState.cps
  split
  · rename_i user
    have same := exact.1 user
    have valid : bankOfMode (cpsCpsr arm.cpsr insn &&& 0x1f#32) = some bank := by
      rw [same]
      exact mode
    have after := represents.cps valid (fun target found =>
      .inl (Option.some.inj (found.symm.trans valid)))
    rw [same] at after
    exact ⟨⟨bank, after⟩, pending⟩
  · rename_i privileged
    have reaches := exact.2 privileged
    unfold ArmState.entered
    split
    · trivial
    · rename_i valid
      obtain ⟨target, valid⟩ := Option.ne_none_iff_exists'.mp valid
      exact ⟨⟨target, represents.cps valid reaches⟩, pending⟩

theorem ldmUsr_conforms (represents : Represents core arm bank) {insn : Word}
    (noPc : insn.getLsbD 15 = false)
    (exact : ExactFor bank insn core.jit.cpsr 0 .userTransfer) :
    Conforms core (core.ldmUsr flat insn (core.jit.r 15)) (arm.userTransfer bank insn) := by
  have after := represents.ldmUsr noPc
  have pending := (ldmUsr_kept core insn (core.jit.r 15)).pending
  rw [represents.cpsr] at exact
  unfold ArmState.userTransfer
  split
  · trivial
  · rename_i notPc
    rcases exact.resolve_left notPc with empty | ⟨passed, shared⟩
    · have same : taken arm bank insn = arm := by
        unfold taken
        rw [empty]
        rfl
      rw [same] at after
      split
      · rw [empty]
        exact ⟨⟨bank, after⟩, pending⟩
      · exact ⟨⟨bank, after⟩, pending⟩
    · rw [if_pos passed]
      have same : taken arm bank insn = arm.moves (insn.getLsbD 20) (fun _ => .usr)
          (lowest insn (arm.read bank (baseIndex insn)) (registerList insn).length)
          (registerList insn) := by
        refine ArmState.moves_congr fun index member => owner_eq_usr fun fiq => ?_
        exact shared fiq index member
      rw [same] at after
      exact ⟨⟨bank, after⟩, pending⟩

theorem rfe_pending (holds : Holds core arm bank) (insn : Word) :
    (core.rfe flat insn).fallbackPending = core.fallbackPending := by
  rw [rfe_eq holds]
  exact (switchMode_apart _ _).2.1.trans (rfe_kept _ insn _).pending

theorem rfe_conforms (represents : Represents core arm bank) {insn : Word}
    (exact : ExactFor bank insn core.jit.cpsr (arm.savedCpsr bank insn) .rfe) :
    Conforms core (core.rfe flat insn) (arm.rfe bank insn) := by
  rw [represents.cpsr] at exact
  unfold ArmState.rfe
  split
  · trivial
  · rename_i defined
    have reaches := (exact.resolve_left (not_or.mp defined).1).resolve_left (not_or.mp defined).2
    dsimp only [ArmState.entered]
    split
    · trivial
    · rename_i valid
      obtain ⟨target, valid⟩ := Option.ne_none_iff_exists'.mp valid
      exact ⟨⟨target, represents.rfe valid reaches⟩, rfe_pending represents.toHolds insn⟩

/-- Two values that no word of the memory below is, nor 8 away from the other. -/
def held : Word := 0x80808080#32

def spare : Word := 0x40404040#32

/-- Some banks with one value in every register and the others with another; the
instruction is at 0. -/
def probe (cpsr : Word) (memory : FlatMemory) (marked : Bank → Bool) : ArmState where
  reg bank index := if index = 15 then 0 else if marked bank then held else spare
  cpsr := cpsr
  memory := memory

/-- What the callbacks keep of a processor. -/
def ArmState.shown (arm : ArmState) (bank : Bank) : Impl FlatMemory where
  jit := ⟨arm.read bank, arm.cpsr⟩
  bankUsr := ⟨arm.reg .usr 13, arm.reg .usr 14⟩
  curMode := arm.mode
  memory := arm.memory
  fallbackPending := false
  fallbackPc := 0
  ticksLeft := 0

theorem shown_represents (valid : bankOfMode arm.mode = some bank) :
    Represents (arm.shown bank) arm bank := by
  refine ⟨⟨fun _ => rfl, ?_, rfl⟩, valid, rfl, rfl⟩
  rintro - index (rfl | rfl)
  · rfl
  · rfl

/-- Zeros but for the instruction. -/
def alone (insn : Word) : FlatMemory := FlatMemory.write32 (fun _ => 0) 0 insn

theorem alone_insn (insn : Word) : (alone insn).read32 0 = insn := FlatMemory.read32_write32 ..

theorem alone_ne_held {insn : Word} (noPc : insn.getLsbD 15 = false) (addr : Word) :
    (alone insn).read32 addr ≠ held := by
  intro same
  have byte (offset : Fin 4) : alone insn (addr + BitVec.ofNat 32 offset) = 0x80#8 := by
    refine (FlatMemory.read32_byte (alone insn) addr offset).symm.trans ?_
    rw [same]
    revert offset
    decide
  have inside (offset : Fin 4) : (addr + BitVec.ofNat 32 offset).toNat < 4 := by
    by_contra outside
    have zero := byte offset
    rw [alone, FlatMemory.write32, if_neg (by simpa using outside)] at zero
    exact absurd zero (by decide)
  have first : (addr + 0#32).toNat < 4 := inside 0
  have last : (addr + 3#32).toNat < 4 := inside 3
  have start : addr = 0#32 := by bv_omega
  subst start
  have second : insn.extractLsb' 8 8 = 0x80#8 := (FlatMemory.write32_inside 1).symm.trans (byte 1)
  have set := (field_eq_iff insn 8 8 0x80#8).mp second 7 (by decide)
  rw [noPc] at set
  exact absurd set (by decide)

/-- A bank that is not reached shows a register the handler leaves as it is. -/
theorem exists_apart (apart : ¬(target = bank ∨ target = .usr ∧ bank ≠ .fiq)) :
    ∃ index, index ≠ 15 ∧ home bank index = bank ∧ home target index = target ∧
      (Banked index → target ≠ .usr) ∧ target ≠ bank := by
  obtain ⟨other, notUser⟩ := not_or.mp apart
  by_cases user : target = .usr
  · subst user
    have fiq : bank = .fiq := by
      by_contra notFiq
      exact notUser ⟨rfl, notFiq⟩
    subst fiq
    exact ⟨8, by decide, by decide, by decide, by unfold Banked; decide, other⟩
  · exact ⟨13, by decide, home_of_banked (.inl rfl), home_of_banked (.inl rfl), fun _ => user, other⟩

theorem switchMode_file {newMode : Word} {index : Fin 16}
    (stays : Banked index → usesUserBank newMode = false) :
    (core.switchMode newMode).jit.r index = core.jit.r index := by
  by_cases banked : Banked index
  · rw [(core.switchMode_switched newMode).file index banked, stays banked]
    rfl
  · exact (switchMode_apart core newMode).2.2 index banked

theorem not_user {mode : Word} (valid : bankOfMode mode = some target) (privileged : target ≠ .usr) :
    usesUserBank mode = false := by
  rw [← Bool.not_eq_true, usesUserBank_iff, valid, Option.some_inj]
  exact privileged

theorem probe_represents (cpsr : Word) (memory : FlatMemory) (marked : Bank → Bool)
    (valid : bankOfMode (cpsr &&& 0x1f#32) = some bank) :
    Represents ((probe cpsr memory marked).shown bank) (probe cpsr memory marked) bank :=
  shown_represents valid

theorem probe_pc (cpsr : Word) (memory : FlatMemory) (marked : Bank → Bool) (bank : Bank) :
    ((probe cpsr memory marked).shown bank).jit.r 15 = 0 := by
  change (probe cpsr memory marked).reg (home bank 15) 15 = 0
  rw [home_pc]
  rfl

/-- What exactness asks of the probes. -/
theorem FallbackExact.probe {insn cpsr saved : Word} (exact : FallbackExact insn cpsr saved)
    (valid : bankOfMode (cpsr &&& 0x1f#32) = some bank) (memory : FlatMemory) (marked : Bank → Bool)
    (fetched : memory.read32 0 = insn)
    (returns : decode cpsr insn = .rfe → (probe cpsr memory marked).savedCpsr bank insn = saved) :
    Conforms ((probe cpsr memory marked).shown bank)
      (((probe cpsr memory marked).shown bank).execute flat (handler cpsr insn) 0)
      ((probe cpsr memory marked).perform bank insn (decode cpsr insn)) := by
  have represents : Represents ((Jit.probe cpsr memory marked).shown bank)
    (Jit.probe cpsr memory marked) bank := shown_represents valid
  have executed := exact _ _ _ represents rfl fetched returns
  rw [conforms_iff represents fetched] at executed
  exact executed

theorem probe_reg (cpsr : Word) (memory : FlatMemory) (marked : Bank → Bool) {index : Fin 16}
    (notPc : index ≠ 15) (owner : Bank) :
    (probe cpsr memory marked).reg owner index = if marked owner then held else spare := if_neg notPc

/-- The file a mode change leaves as it is. -/
theorem cps_file (core : Impl FlatMemory) {insn : Word} (pc : Word) {index : Fin 16}
    (notPc : index ≠ 15) (stays : Banked index → usesUserBank (core.cps insn pc).mode = false) :
    (core.cps insn pc).jit.r index = core.jit.r index := by
  rw [cps_mode] at stays
  unfold Impl.cps
  dsimp only
  split
  · rename_i asks
    rw [if_pos asks] at stays
    exact (Function.update_of_ne notPc ..).trans (switchMode_file stays)
  · exact Function.update_of_ne notPc ..

theorem setReg_self (core : Impl FlatMemory) (index : Fin 16) (value : Word) :
    (core.setReg index value).jit.r index = value := Function.update_self ..

theorem cps_pc (core : Impl FlatMemory) (insn pc : Word) : (core.cps insn pc).jit.r 15 = pc + 4 := by
  unfold Impl.cps
  exact setReg_self ..

theorem ldmUsr_pc (core : Impl FlatMemory) (insn pc : Word) :
    (core.ldmUsr flat insn pc).jit.r 15 = pc + 4 := by
  unfold Impl.ldmUsr
  exact setReg_self ..

theorem other_exact {insn cpsr saved : Word} (exact : FallbackExact insn cpsr saved)
    (valid : bankOfMode (cpsr &&& 0x1f#32) = some bank) (kind : decode cpsr insn = .other)
    (handled : handler cpsr insn = .cps insn ∨ handler cpsr insn = .ldmUsr insn ∨
      handler cpsr insn = .refused) : handler cpsr insn = .refused := by
  have conforms := exact.probe valid (alone insn) (fun _ => true) (alone_insn insn)
    (fun rfe => by rw [kind] at rfe; cases rfe)
  rw [kind] at conforms
  have pc := congrFun (congrArg JitRegs.r conforms.1) 15
  have moved : (0 : Word) + 4 ≠ 0 := by decide
  rcases handled with taken | taken | taken
  · rw [taken, Impl.execute, cps_pc] at pc
    exact absurd pc moved
  · rw [taken, Impl.execute, ldmUsr_pc] at pc
    exact absurd pc moved
  · exact taken

/-- A register that the mode entered has of its own. -/
theorem Represents.shows (after : Represents core arm bank)
    (entered : bankOfMode arm.mode = some target) {index : Fin 16} (others : home target index = target) :
    core.jit.r index = arm.reg target index := by
  have same : bank = target := by
    rw [after.mode_eq, after.bank] at entered
    exact Option.some.inj entered
  rw [after.file, ArmState.read, same, others]

/-- Every register but PC tells its bank from the others. -/
def Marked (arm : ArmState) (bank : Bank) : Prop :=
  ∀ index, index ≠ 15 → ∀ owner, arm.reg owner index = if owner = bank then held else spare

theorem probe_marked (cpsr : Word) (memory : FlatMemory) (bank : Bank) :
    Marked (probe cpsr memory (· == bank)) bank := by
  intro index notPc owner
  rw [probe_reg _ _ _ notPc]
  simp

theorem cps_reaches (represents : Represents core arm bank) (marked : Marked arm bank)
    {insn pc : Word} (privileged : arm.mode ≠ 0x10#32)
    (conforms : Conforms core (core.cps insn pc) (arm.cps bank insn)) :
    Reaches bank (cpsCpsr arm.cpsr insn &&& 0x1f#32) := by
  intro target entered
  by_contra apart
  obtain ⟨index, notPc, own, others, stays, different⟩ := exists_apart apart
  rw [ArmState.cps_privileged privileged entered] at conforms
  obtain ⟨⟨reached, after⟩, -⟩ := conforms
  have mode := (congrArg bankOfMode after.mode_eq).symm.trans entered
  have shows := after.shows entered others
  rw [cps_file core pc notPc (fun banked => not_user mode (stays banked)), represents.file,
    ArmState.read, own, marked index notPc, if_pos rfl] at shows
  have spares : (arm.advance bank).reg target index = spare := by
    rw [ArmState.advance_read notPc, marked index notPc, if_neg different]
  exact absurd (shows.trans spares) (by decide)

theorem cps_exact {insn cpsr saved : Word} (exact : FallbackExact insn cpsr saved)
    (valid : bankOfMode (cpsr &&& 0x1f#32) = some bank) (kind : decode cpsr insn = .cps)
    (handled : handler cpsr insn = .cps insn) : ExactFor bank insn cpsr saved .cps := by
  have conforms (marked : Bank → Bool) := exact.probe valid (alone insn) marked (alone_insn insn)
    (fun rfe => by rw [kind] at rfe; cases rfe)
  rw [kind, handled] at conforms
  constructor
  · intro user
    have executed := conforms (fun _ => true)
    have user : (probe cpsr (alone insn) fun _ => true).mode = 0x10#32 := user
    rw [ArmState.perform, ArmState.cps_user user] at executed
    obtain ⟨⟨_, after⟩, -⟩ := executed
    have computed := cps_cpsr ((probe cpsr (alone insn) fun _ => true).shown bank) insn 0
    exact computed.symm.trans after.cpsr
  · intro privileged
    exact cps_reaches (probe_represents cpsr (alone insn) (· == bank) valid)
      (probe_marked cpsr (alone insn) bank) privileged (conforms (· == bank))

theorem Holds.owned_eq (holds : Holds core arm bank) (also : Holds core other bank) (index : Fin 16) :
    arm.reg (owner bank index) index = other.reg (owner bank index) index :=
  (holds.owned index).symm.trans (also.owned index)

/-- What the handler transfers where the processor does something else. -/
theorem taken_of_conforms (represents : Represents core arm bank) {insn pc : Word}
    (noPc : insn.getLsbD 15 = false) (fetched : core.jit.r 15 = pc)
    (conforms : Conforms core (core.execute flat (.ldmUsr insn) pc) (.executed (other.advance bank))) :
    (taken arm bank insn).memory = other.memory ∧ ∀ index, index ≠ 15 →
      (taken arm bank insn).reg (owner bank index) index = other.reg (owner bank index) index := by
  subst fetched
  have handled := represents.ldmUsr noPc
  obtain ⟨⟨reached, after⟩, -⟩ := conforms
  have same : reached = bank := Option.some.inj (after.bank.symm.trans handled.bank)
  subst same
  refine ⟨handled.memory.symm.trans after.memory, ?_⟩
  intro index notPc
  have owned := handled.owned_eq after.toHolds index
  rwa [ArmState.advance_read notPc, ArmState.advance_read notPc] at owned

theorem registerList_length (insn : Word) : (registerList insn).length ≤ 15 :=
  (List.length_filter_le _ _).trans (List.length_finRange).le

/-- A transfer that should not have been made moves something. -/
theorem taken_differs {insn cpsr : Word} (noPc : insn.getLsbD 15 = false)
    (nonempty : registerList insn ≠ []) :
    let arm := probe cpsr (alone insn) (fun _ => true)
    ¬((taken arm bank insn).memory = arm.memory ∧ ∀ index, index ≠ 15 →
      (taken arm bank insn).reg (owner bank index) index = arm.reg (owner bank index) index) := by
  rintro arm ⟨memory, registers⟩
  have bound := registerList_length insn
  obtain ⟨first, rest, shape⟩ := List.exists_cons_of_ne_nil nonempty
  have shows : arm.reg (owner bank first.castSucc) first.castSucc = held :=
    probe_reg _ _ _ (castSucc_ne_pc first) _
  unfold taken at memory registers
  generalize lowest insn (arm.read bank (baseIndex insn)) (registerList insn).length = addr at memory registers
  rw [shape] at memory registers bound
  cases load : insn.getLsbD 20 with
  | true =>
    have listed : first ∈ first :: rest := by simp
    have unchanged := registers first.castSucc (castSucc_ne_pc first)
    rw [load] at unchanged
    obtain ⟨cell, word⟩ : ∃ cell, (arm.moves true (owner bank) addr (first :: rest)).reg
      (owner bank first.castSucc) first.castSucc = arm.memory.read32 cell :=
        ArmState.moves_load_word listed
    exact alone_ne_held noPc cell (word.symm.trans (unchanged.trans shows))
  | false =>
    rw [load, ArmState.moves_store, List.map_cons, shows] at memory
    have back := congrArg (FlatMemory.read32 · addr) memory
    rw [FlatMemory.read32_writeWords_cons (by simp at bound ⊢; omega)] at back
    exact alone_ne_held noPc addr back.symm

/-- In FIQ mode the registers of user mode are others. -/
theorem taken_fiq {insn cpsr : Word} (noPc : insn.getLsbD 15 = false) {head : Fin 15}
    (listed : head ∈ registerList insn) (low : 8 ≤ head.val) (high : head.val ≤ 12) :
    let arm := probe cpsr (alone insn) (· == .fiq)
    let moved := arm.moves (insn.getLsbD 20) (fun _ => .usr)
      (lowest insn (arm.read .fiq (baseIndex insn)) (registerList insn).length) (registerList insn)
    ¬((taken arm .fiq insn).memory = moved.memory ∧ ∀ index, index ≠ 15 →
      (taken arm .fiq insn).reg (owner .fiq index) index = moved.reg (owner .fiq index) index) := by
  rintro arm moved ⟨memory, registers⟩
  have bound := registerList_length insn
  have own : owner .fiq head.castSucc = .fiq := owner_fiq low high
  have shows (bank : Bank) : arm.reg bank head.castSucc = if bank = .fiq then held else spare :=
    probe_marked cpsr (alone insn) .fiq head.castSucc (castSucc_ne_pc head) bank
  unfold taken at memory registers
  unfold moved at memory registers
  generalize lowest insn (arm.read .fiq (baseIndex insn)) (registerList insn).length = addr at memory registers
  cases load : insn.getLsbD 20 with
  | true =>
    have equal := registers head.castSucc (castSucc_ne_pc head)
    rw [load] at equal
    obtain ⟨cell, word⟩ : ∃ cell, (arm.moves true (owner .fiq) addr (registerList insn)).reg
      (owner .fiq head.castSucc) head.castSucc = arm.memory.read32 cell :=
        ArmState.moves_load_word listed
    rw [word, own, ArmState.moves_load_apart, shows, if_pos rfl] at equal
    · exact alone_ne_held noPc cell equal
    · rintro other - ⟨fiq, -⟩
      cases fiq
  | false =>
    rw [load, ArmState.moves_store, ArmState.moves_store] at memory
    have rows := FlatMemory.writeWords_inj (by simp; omega) (by simp) memory
    have words := List.map_inj_left.mp rows head listed
    rw [own, shows, shows, if_pos rfl, if_neg (by decide)] at words
    exact absurd words (by decide)

theorem userTransfer_exact {insn cpsr saved : Word} (exact : FallbackExact insn cpsr saved)
    (valid : bankOfMode (cpsr &&& 0x1f#32) = some bank) (kind : decode cpsr insn = .userTransfer)
    (handled : handler cpsr insn = .ldmUsr insn) (noPc : insn.getLsbD 15 = false) :
    ExactFor bank insn cpsr saved .userTransfer := by
  have conforms (marked : Bank → Bool) := exact.probe valid (alone insn) marked (alone_insn insn)
    (fun rfe => by rw [kind] at rfe; cases rfe)
  rw [kind, handled] at conforms
  by_contra inexact
  obtain ⟨base, inexact⟩ := not_or.mp inexact
  obtain ⟨nonempty, inexact⟩ := not_or.mp inexact
  by_cases passed : conditionPassed cpsr insn = true
  · have shared : ¬(bank = .fiq → ∀ index ∈ registerList insn, ¬(8 ≤ index.val ∧ index.val ≤ 12)) :=
      fun fiq => inexact ⟨passed, fiq⟩
    push Not at shared
    obtain ⟨fiq, head, listed, low, high⟩ := shared
    subst fiq
    have executed := conforms (· == .fiq)
    have represents := probe_represents cpsr (alone insn) (· == .fiq) valid
    have passed : conditionPassed (probe cpsr (alone insn) (· == .fiq)).cpsr insn = true := passed
    rw [ArmState.perform, ArmState.userTransfer_passed base passed] at executed
    have moved := taken_of_conforms represents noPc (probe_pc ..) executed
    exact taken_fiq noPc listed low high moved
  · have executed := conforms (fun _ => true)
    have represents := probe_represents cpsr (alone insn) (fun _ => true) valid
    have failed : ¬conditionPassed (probe cpsr (alone insn) (fun _ => true)).cpsr insn = true := passed
    rw [ArmState.perform, ArmState.userTransfer_failed base failed] at executed
    have moved := taken_of_conforms represents noPc (probe_pc ..) executed
    exact taken_differs noPc nonempty moved

/-- The instruction with the CPSR to return to where the base has it. -/
def returning (insn saved base : Word) : FlatMemory :=
  (FlatMemory.write32 (fun _ => 0) (lowest insn base 2 + 4) saved).write32 0 insn

theorem returning_insn (insn saved base : Word) : (returning insn saved base).read32 0 = insn :=
  FlatMemory.read32_write32 ..

theorem returning_saved {insn saved base : Word} (value : base = held ∨ base = spare) :
    (returning insn saved base).read32 (lowest insn base 2 + 4) = saved := by
  have apart : 4 ≤ (lowest insn base 2 + 4 - 0).toNat ∧ 4 ≤ (0 - (lowest insn base 2 + 4)).toNat := by
    unfold lowest
    rcases value with rfl | rfl
    · cases insn.getLsbD 24 <;> cases insn.getLsbD 23 <;> decide
    · cases insn.getLsbD 24 <;> cases insn.getLsbD 23 <;> decide
  rw [returning, FlatMemory.read32_write32_apart _ _ apart.1 apart.2, FlatMemory.read32_write32]

theorem rfe_file (holds : Holds core arm bank) {insn : Word} {index : Fin 16} (notPc : index ≠ 15)
    (stays : Banked index → usesUserBank (core.rfe flat insn).mode = false) :
    (core.rfe flat insn).jit.r index = (arm.rfeWriteback bank insn).read bank index := by
  rw [rfe_eq holds] at stays ⊢
  rw [← (holds.rfeWriteback insn).file]
  exact (Function.update_of_ne notPc ..).trans (switchMode_file stays)

/-- Writing the base back leaves the registers of another bank, and marks none like them. -/
theorem rfeWriteback_marked (marked : Marked arm bank) (insn : Word) {index : Fin 16}
    (notPc : index ≠ 15) (own : home bank index = bank) (different : target ≠ bank) :
    (arm.rfeWriteback bank insn).read bank index ≠ spare ∧
      (arm.rfeWriteback bank insn).reg target index = spare := by
  have shows : arm.read bank index = held := by
    rw [ArmState.read, own, marked index notPc, if_pos rfl]
  have spares : arm.reg target index = spare := by rw [marked index notPc, if_neg different]
  unfold ArmState.rfeWriteback
  dsimp only
  split
  · constructor
    · rw [ArmState.read_write]
      split
      · rename_i same
        rw [← same, shows]
        split
        · decide
        · decide
      · rw [shows]
        decide
    · rw [ArmState.write, ArmState.reg_put, if_neg, spares]
      rintro ⟨home, rfl⟩
      exact different (home.trans own)
  · rw [shows, spares]
    exact ⟨by decide, rfl⟩

theorem rfe_reaches (represents : Represents core arm bank) (marked : Marked arm bank) {insn : Word}
    (privileged : arm.mode ≠ 0x10#32) (base : baseIndex insn ≠ 15)
    (conforms : Conforms core (core.rfe flat insn) (arm.rfe bank insn)) :
    Reaches bank (arm.savedCpsr bank insn &&& 0x1f#32) := by
  intro target entered
  by_contra apart
  obtain ⟨index, notPc, own, others, stays, different⟩ := exists_apart apart
  rw [ArmState.rfe_defined privileged base entered] at conforms
  obtain ⟨⟨reached, after⟩, -⟩ := conforms
  have mode := (congrArg bankOfMode after.mode_eq).symm.trans entered
  have shows := after.shows entered others
  rw [rfe_file represents.toHolds notPc (fun banked => not_user mode (stays banked))] at shows
  obtain ⟨differs, spares⟩ := rfeWriteback_marked marked insn notPc own different
  refine differs (shows.trans (Eq.trans ?_ spares))
  exact ArmState.reg_put.trans (if_neg fun both => notPc both.2)

theorem rfe_exact {insn cpsr saved : Word} (exact : FallbackExact insn cpsr saved)
    (valid : bankOfMode (cpsr &&& 0x1f#32) = some bank) (kind : decode cpsr insn = .rfe)
    (handled : handler cpsr insn = .rfe insn) : ExactFor bank insn cpsr saved .rfe := by
  by_contra inexact
  obtain ⟨privileged, inexact⟩ := not_or.mp inexact
  obtain ⟨base, apart⟩ := not_or.mp inexact
  let value := if home bank (baseIndex insn) = bank then held else spare
  have values : value = held ∨ value = spare := ite_eq_or_eq _ _ _
  let memory := returning insn saved value
  have marked := probe_marked cpsr memory bank
  have frame : (probe cpsr memory (· == bank)).frame bank insn = lowest insn value 2 :=
    congrArg (lowest insn · 2) (marked (baseIndex insn) base (home bank (baseIndex insn)))
  have returns : (probe cpsr memory (· == bank)).savedCpsr bank insn = saved := by
    rw [ArmState.savedCpsr, frame]
    exact returning_saved values
  have conforms := exact.probe valid memory (· == bank) (returning_insn ..) (fun _ => returns)
  rw [kind, handled] at conforms
  have represents := probe_represents cpsr memory (· == bank) valid
  have reaches := rfe_reaches represents marked privileged base conforms
  rw [returns] at reaches
  exact apart reaches

/-- An opcode is decoded and executed exactly just when its condition holds. -/
theorem fallbackExact_iff (insn cpsr saved : Word) :
    FallbackExact insn cpsr saved ↔ ExactWhen insn cpsr saved := by
  constructor
  · intro exact bank valid
    rcases decode_cases cpsr insn with ⟨kind, handled⟩ | ⟨kind, handled, noPc⟩ | ⟨kind, handled⟩ |
      ⟨kind, handled⟩
    · rw [kind]
      exact cps_exact exact valid kind handled
    · rw [kind]
      exact userTransfer_exact exact valid kind handled noPc
    · rw [kind]
      exact rfe_exact exact valid kind handled
    · rw [kind]
      exact other_exact exact valid kind handled
  · rintro exact core arm bank represents rfl fetched returns
    have condition := exact bank represents.bank
    rw [conforms_iff represents fetched]
    rcases decode_cases core.jit.cpsr insn with ⟨kind, handled⟩ | ⟨kind, handled, noPc⟩ |
      ⟨kind, handled⟩ | ⟨kind, handled⟩
    · rw [kind] at condition ⊢
      rw [handled]
      exact cps_conforms represents condition
    · rw [kind] at condition ⊢
      rw [handled]
      exact ldmUsr_conforms represents noPc condition
    · rw [← returns kind, kind] at condition
      rw [kind, handled]
      exact rfe_conforms represents condition
    · rw [kind] at condition ⊢
      rw [condition]
      exact ⟨rfl, rfl, rfl, rfl⟩

/-- `cpsie if` in supervisor mode. -/
example : ExactWhen 0xf10800c0 0xd3 0 := by decide +kernel

/-- `ldmiaeq r0, {r13, r14}^` with Z clear. -/
example : ¬ExactWhen 0x08d06000 0x13 0 := by decide +kernel

/-- SRS is executed as a store of user registers. -/
theorem srs_inexact : ¬FallbackExact 0xf8cd0513 0x13 0 := by
  intro exact
  have valid : bankOfMode (0x13#32 &&& 0x1f#32) = some .svc := by decide
  have refused := other_exact exact valid (by decide +kernel) (.inr (.inl (by decide +kernel)))
  exact absurd refused (by decide +kernel)

end ZeeboLle.Jit
