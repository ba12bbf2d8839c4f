import ZeeboLle.Jit.Fallback
import ZeeboLle.Scheduling.Runs

/-! Banked registers along runs of the fallback handlers. A record kept beside the run says
what r13 and r14 of each bank were when it was last left. The handlers keep a bank for user
and system mode; the privileged modes share the current file. -/
namespace ZeeboLle.Jit

open Unicorn Scheduling ZeeboLle.System

/-- The bank of a processor mode; the other mode values are reserved. -/
def bankOfMode (mode : Word) : Option Bank :=
  match mode.toNat with
  | 0x10 | 0x1f => some .usr
  | 0x11 => some .fiq
  | 0x12 => some .irq
  | 0x13 => some .svc
  | 0x17 => some .abt
  | 0x1b => some .und
  | _ => none

theorem usesUserBank_iff (mode : Word) : usesUserBank mode = true ↔ bankOfMode mode = some .usr := by
  constructor
  · intro user
    simp only [usesUserBank, Bool.or_eq_true, beq_iff_eq] at user
    rcases user with rfl | rfl
    · rfl
    · rfl
  · intro user
    unfold bankOfMode at user
    simp only [usesUserBank, Bool.or_eq_true, beq_iff_eq]
    split at user
    · rename_i same
      exact .inl (BitVec.eq_of_toNat_eq same)
    · rename_i same
      exact .inr (BitVec.eq_of_toNat_eq same)
    all_goals cases user

/-- What a run is made of: instructions the recompiler hands back, and what translated code
does in between, which never changes the mode. -/
inductive Event (σ : Type*) where
  | fallback (pc : Word)
  | writeReg (index : Fin 16) (value : Word)
  | writeFlags (value : Word)
  | writeMemory (memory : σ)

/-- r13 and r14 of each bank as it was last left, or as last loaded into the user bank. -/
abbrev Memo := Bank → Fin 16 → Option Word

/-- The registers when a mode is left, and the mode asked for. -/
structure Switch where
  left : Fin 16 → Word
  mode : Word

section

variable {σ : Type*} (bridge : MemoryBridge σ)

def Impl.step (core : Impl σ) : Event σ → Impl σ
  | .fallback pc => core.interpreterFallback bridge pc
  | .writeReg index value => core.setReg index value
  | .writeFlags value => core.setCpsr ((core.jit.cpsr &&& 0x1f#32) ||| (value &&& ~~~0x1f#32))
  | .writeMemory memory => { core with memory }

/-- The switch an instruction asks for. -/
def Impl.Handled.switch (core : Impl σ) : Impl.Handled → Option Switch
  | .cps insn => if Impl.cpsChangesMode insn then some ⟨core.jit.r, insn &&& 0x1f#32⟩ else none
  | .rfe insn => some ⟨core.rfeLeaves insn, (core.rfeFrame bridge insn).2.1 &&& 0x1f#32⟩
  | .ldmUsr _ | .refused => none

/-- The words an instruction loads into the user bank. -/
def Impl.Handled.loads (core : Impl σ) : Impl.Handled → Fin 16 → Option Word
  | .ldmUsr insn => core.userLoads bridge insn
  | .cps _ | .rfe _ | .refused => fun _ => none

/-- The core an instruction executes on, after its fetches. -/
def Impl.fetched (core : Impl σ) (pc : Word) : Impl σ :=
  { core with memory := (core.dispatch bridge pc).2 }

def Event.switch (core : Impl σ) : Event σ → Option Switch
  | .fallback pc => (core.dispatch bridge pc).1.switch bridge (core.fetched bridge pc)
  | .writeReg .. | .writeFlags _ | .writeMemory _ => none

def Event.loads (core : Impl σ) : Event σ → Fin 16 → Option Word
  | .fallback pc => (core.dispatch bridge pc).1.loads bridge (core.fetched bridge pc)
  | .writeReg .. | .writeFlags _ | .writeMemory _ => fun _ => none

/-- A bank that is left is recorded, and so is what is loaded into the user bank. -/
def Memo.after (memo : Memo) (core : Impl σ) (event : Event σ) : Memo := fun bank index =>
  match event.switch bridge core with
  | some switch =>
    if bankOfMode core.mode = some bank ∧ bankOfMode switch.mode ≠ some bank then
      some (switch.left index)
    else memo bank index
  | none => if bank = .usr then (event.loads bridge core index).or (memo bank index) else memo bank index

/-- A core with its record. -/
structure Watched (σ : Type*) where
  core : Impl σ
  memo : Memo

def Watched.step (state : Watched σ) (event : Event σ) : Watched σ :=
  ⟨state.core.step bridge event, state.memo.after bridge state.core event⟩

def Watched.run (start : Watched σ) (events : List (Event σ)) : Watched σ :=
  events.foldl (Watched.step bridge) start

/-- Supervisor mode with an empty user bank and nothing recorded. -/
def reset (file : Fin 16 → Word) (cpsr : Word) (memory : σ) : Watched σ where
  core := ⟨⟨file, cpsr⟩, ⟨0, 0⟩, 0x13, memory, false, 0, 0⟩
  memo := fun _ _ => none

/-- A step that enters a bank finds r13 and r14 there as the record has them. -/
def RestoresBank (state : Watched σ) (event : Event σ) (bank : Bank) : Prop :=
  bankOfMode (state.step bridge event).core.mode = some bank → bankOfMode state.core.mode ≠ some bank →
    ∀ index value, Banked index → state.memo bank index = some value →
      (state.step bridge event).core.jit.r index = value

/-- A step that asks for a privileged mode comes from a mode with the r13 and r14 that the
privileged mode was left with. -/
def SharesFile (state : Watched σ) (event : Event σ) : Prop :=
  ∀ switch bank, event.switch bridge state.core = some switch → bankOfMode switch.mode = some bank →
    bank ≠ .usr → bankOfMode state.core.mode ≠ some bank →
    ∀ index value, Banked index → state.memo bank index = some value → switch.left index = value

variable {bridge} {core : Impl σ} {state : Watched σ} {event : Event σ} {switch : Switch}

@[simp] theorem Watched.step_core :
    (state.step bridge event).core = state.core.step bridge event := rfl

@[simp] theorem Watched.step_memo :
    (state.step bridge event).memo = state.memo.after bridge state.core event := rfl

/-- Fetching is no part of a switch. -/
theorem Impl.Entered.of_fetched {pc newMode : Word} {after : Impl σ} {left : Fin 16 → Word}
    (entered : Entered (core.fetched bridge pc) after newMode left) : Entered core after newMode left :=
  ⟨entered.curMode, entered.mode, entered.file, entered.bankUsr⟩

theorem Memo.after_switch {memo : Memo} {bank : Bank} {index : Fin 16}
    (asks : event.switch bridge core = some switch) :
    memo.after bridge core event bank index =
      if bankOfMode core.mode = some bank ∧ bankOfMode switch.mode ≠ some bank then
        some (switch.left index)
      else memo bank index := by
  simp only [after, asks]

theorem Memo.after_stay {memo : Memo} {index : Fin 16} (asks : event.switch bridge core = none) :
    memo.after bridge core event .usr index =
      (event.loads bridge core index).or (memo .usr index) := by
  simp only [after, asks, if_true]

theorem step_entered (asks : event.switch bridge core = some switch) :
    Impl.Entered core (core.step bridge event) switch.mode switch.left := by
  cases event with
  | fallback pc =>
    rw [Event.switch] at asks
    rw [Impl.step, Impl.interpreterFallback_eq]
    cases taken : (core.dispatch bridge pc).1 with
    | cps insn =>
      rw [taken, Impl.Handled.switch] at asks
      split at asks
      · rename_i changes
        cases asks
        exact (Impl.cps_entered (core.fetched bridge pc) changes pc).of_fetched
      · cases asks
    | ldmUsr insn =>
      rw [taken] at asks
      cases asks
    | rfe insn =>
      rw [taken] at asks
      cases asks
      exact (Impl.rfe_entered bridge (core.fetched bridge pc) insn).of_fetched
    | refused =>
      rw [taken] at asks
      cases asks
  | writeReg index value => cases asks
  | writeFlags value => cases asks
  | writeMemory memory => cases asks

theorem step_stayed (asks : event.switch bridge core = none) :
    Impl.Stayed core (core.step bridge event) ∧
      ∀ index, Banked index → (core.step bridge event).bankUsr.read index =
        (event.loads bridge core index).getD (core.bankUsr.read index) := by
  cases event with
  | fallback pc =>
    rw [Event.switch] at asks
    rw [Event.loads, Impl.step, Impl.interpreterFallback_eq]
    cases taken : (core.dispatch bridge pc).1 with
    | cps insn =>
      rw [taken, Impl.Handled.switch] at asks
      split at asks
      · cases asks
      · rename_i keeps
        obtain ⟨stayed, bank⟩ := Impl.cps_stayed (core.fetched bridge pc) (by simpa using keeps) pc
        exact ⟨⟨stayed.curMode, stayed.mode⟩, fun index _ => congrArg (ModeBank.read · index) bank⟩
    | ldmUsr insn =>
      obtain ⟨stayed, bank⟩ := Impl.ldmUsr_spec bridge (core.fetched bridge pc) insn pc
      exact ⟨⟨stayed.curMode, stayed.mode⟩, bank⟩
    | rfe insn =>
      rw [taken] at asks
      cases asks
    | refused => exact ⟨⟨rfl, rfl⟩, fun _ _ => rfl⟩
  | writeReg index value => exact ⟨⟨rfl, rfl⟩, fun _ _ => rfl⟩
  | writeFlags value =>
    refine ⟨⟨rfl, ?_⟩, fun _ _ => rfl⟩
    change ((core.jit.cpsr &&& 0x1f#32) ||| (value &&& ~~~0x1f#32)) &&& 0x1f#32 = core.jit.cpsr &&& 0x1f#32
    ext index bound
    interval_cases index <;> simp
  | writeMemory memory => exact ⟨⟨rfl, rfl⟩, fun _ _ => rfl⟩

/-- The tracked mode is the processor's, and outside user and system mode the user bank
holds what is recorded for it. -/
structure Tracks (state : Watched σ) : Prop where
  curMode : state.core.curMode = state.core.mode
  bankUsr : bankOfMode state.core.mode ≠ some .usr → ∀ index value, Banked index →
    state.memo .usr index = some value → state.core.bankUsr.read index = value

theorem reset_tracks {file : Fin 16 → Word} {cpsr : Word} {memory : σ}
    (supervisor : cpsr &&& 0x1f#32 = 0x13#32) : Tracks (reset file cpsr memory) := by
  refine ⟨supervisor.symm, ?_⟩
  intro _ index value _ recorded
  cases recorded

theorem Tracks.step_switch (tracks : Tracks state) (asks : event.switch bridge state.core = some switch) :
    Tracks (state.step bridge event) := by
  obtain ⟨curMode, mode, file, bankUsr⟩ := step_entered asks
  refine ⟨curMode.trans mode.symm, ?_⟩
  intro away index value banked recorded
  have toPrivileged : bankOfMode switch.mode ≠ some .usr := by
    rw [← mode]
    exact away
  rw [Watched.step_memo, Memo.after_switch asks] at recorded
  rw [Watched.step_core, bankUsr index banked, tracks.curMode]
  cases user : usesUserBank state.core.mode with
  | true =>
    have left := (usesUserBank_iff _).mp user
    rw [if_pos ⟨left, toPrivileged⟩] at recorded
    have moved : switch.mode ≠ state.core.mode := by
      intro same
      exact toPrivileged (same ▸ left)
    rw [if_pos (by simp [moved])]
    exact Option.some.inj recorded
  | false =>
    have other : bankOfMode state.core.mode ≠ some .usr := by
      intro left
      exact absurd ((usesUserBank_iff _).mpr left) (by simp [user])
    rw [if_neg (fun both => other both.1)] at recorded
    rw [if_neg (by simp)]
    exact tracks.bankUsr other index value banked recorded

theorem Tracks.step_stay (tracks : Tracks state) (asks : event.switch bridge state.core = none) :
    Tracks (state.step bridge event) := by
  obtain ⟨⟨curMode, mode⟩, bankUsr⟩ := step_stayed asks
  refine ⟨curMode.trans (tracks.curMode.trans mode.symm), ?_⟩
  intro away index value banked recorded
  rw [Watched.step_core, mode] at away
  rw [Watched.step_memo, Memo.after_stay asks] at recorded
  rw [Watched.step_core, bankUsr index banked]
  cases loads : event.loads bridge state.core index with
  | some word =>
    rw [loads] at recorded
    exact Option.some.inj recorded
  | none =>
    rw [loads] at recorded
    exact tracks.bankUsr away index value banked recorded

theorem Tracks.step (tracks : Tracks state) (event : Event σ) : Tracks (state.step bridge event) := by
  cases asks : event.switch bridge state.core with
  | some switch => exact tracks.step_switch asks
  | none => exact tracks.step_stay asks

/-- Only a step that asks for a mode enters a bank. -/
theorem exists_switch {bank : Bank} (entered : bankOfMode (core.step bridge event).mode = some bank)
    (away : bankOfMode core.mode ≠ some bank) :
    ∃ switch, event.switch bridge core = some switch ∧ bankOfMode switch.mode = some bank := by
  cases asks : event.switch bridge core with
  | none =>
    rw [(step_stayed asks).1.mode] at entered
    exact absurd entered away
  | some switch =>
    rw [(step_entered asks).mode] at entered
    exact ⟨switch, rfl, entered⟩

/-- Entering user or system mode restores its r13 and r14. -/
theorem Tracks.restores_usr (tracks : Tracks state) (event : Event σ) :
    RestoresBank bridge state event .usr := by
  intro entered away index value banked recorded
  obtain ⟨switch, asks, target⟩ := exists_switch entered away
  have user := (usesUserBank_iff _).mpr target
  have left : usesUserBank state.core.mode = false := by
    by_contra user
    exact away ((usesUserBank_iff _).mp (by simpa using user))
  rw [Watched.step_core, (step_entered asks).file index banked, tracks.curMode, user, left,
    if_pos (by decide)]
  exact tracks.bankUsr away index value banked recorded

/-- A privileged mode is entered with the file as it is. -/
theorem step_privileged {bank : Bank} (asks : event.switch bridge core = some switch)
    (target : bankOfMode switch.mode = some bank) (privileged : bank ≠ .usr) {index : Fin 16}
    (banked : Banked index) : (core.step bridge event).jit.r index = switch.left index := by
  rw [(step_entered asks).file index banked, if_neg]
  intro user
  have usr := (usesUserBank_iff _).mp (Bool.and_eq_true_iff.mp user).1
  exact privileged (Option.some.inj (target.symm.trans usr))

/-- Entering a privileged mode restores its r13 and r14 exactly when they are in the file. -/
theorem restores_privileged_iff :
    (∀ bank, bank ≠ .usr → RestoresBank bridge state event bank) ↔ SharesFile bridge state event := by
  constructor
  · intro restores switch bank asks target privileged away index value banked recorded
    have entered : bankOfMode (state.core.step bridge event).mode = some bank := by
      rw [(step_entered asks).mode]
      exact target
    rw [← step_privileged asks target privileged banked]
    exact restores bank privileged entered away index value banked recorded
  · intro shares bank privileged entered away index value banked recorded
    obtain ⟨switch, asks, target⟩ := exists_switch entered away
    rw [Watched.step_core, step_privileged asks target privileged banked]
    exact shares switch bank asks target privileged away index value banked recorded

theorem Tracks.run (tracks : Tracks state) (events : List (Event σ)) :
    Tracks (state.run bridge events) := by
  induction events generalizing state with
  | nil => exact tracks
  | cons event rest ih => exact ih (tracks.step event)

end

/-- Every run from reset keeps track of the mode and restores user and system mode's r13 and
r14; it restores those of every mode exactly when no step asks for a privileged mode left
with another r13 or r14 than the mode it comes from. -/
theorem banks_survive_iff {σ : Type*} (bridge : MemoryBridge σ) (file : Fin 16 → Word) (cpsr : Word)
    (memory : σ) (supervisor : cpsr &&& 0x1f#32 = 0x13#32) (events : List (Event σ)) :
    let state (before : List (Event σ)) := (reset file cpsr memory).run bridge before
    (state events).core.curMode = (state events).core.mode ∧
      Throughout (fun before event => RestoresBank bridge (state before) event .usr) events ∧
      (Throughout (fun before event => ∀ bank, RestoresBank bridge (state before) event bank) events ↔
        Throughout (fun before event => SharesFile bridge (state before) event) events) := by
  intro state
  have tracks (before : List (Event σ)) : Tracks (state before) := (reset_tracks supervisor).run before
  refine ⟨(tracks events).curMode, ?_, ?_, ?_⟩
  · intro before event after split
    exact (tracks before).restores_usr event
  · intro restores before event after split
    exact restores_privileged_iff.mp (fun bank _ => restores before event after split bank)
  · intro shares before event after split bank
    by_cases user : bank = .usr
    · rw [user]
      exact (tracks before).restores_usr event
    · exact restores_privileged_iff.mpr (shares before event after split) bank user

/-- `cps #0x1f` at 0, `cps #0x13` at 4 and `cps #0x12` elsewhere. -/
def modeChanges : MemoryBridge Unit where
  onCode _ _ := ()
  read32 _ addr := (if addr = 0 then 0xf102001f else if addr = 4 then 0xf1020013 else 0xf1020012, ())
  write32 _ _ _ := ()

/-- Supervisor mode with a stack. -/
def stacked : Watched Unit := reset (Function.update (fun _ => 0) 13 0x1000) 0x13 ()

/-- System mode has its stack back after an excursion to IRQ mode. -/
theorem banks_survive_iff_system :
    (stacked.run modeChanges [.fallback 0, .writeReg 13 0x2000, .fallback 8, .fallback 0]).core.jit.r 13 =
      0x2000#32 := by
  have survive := banks_survive_iff modeChanges (Function.update (fun _ => 0) 13 0x1000) 0x13 () rfl
    [.fallback 0, .writeReg 13 0x2000, .fallback 8, .fallback 0]
  have restored := survive.2.1 [.fallback 0, .writeReg 13 0x2000, .fallback 8] (.fallback 0) [] rfl
  exact restored (by decide +kernel) (by decide +kernel) 13 0x2000 (.inl rfl) (by decide +kernel)

/-- Supervisor mode comes back from system mode with the system's stack. -/
theorem supervisor_stack_lost :
    ¬ Throughout (fun before event => ∀ bank, RestoresBank modeChanges
        (stacked.run modeChanges before) event bank) [.fallback 0, .fallback 4] := by
  intro every
  have restored := every [.fallback 0] (.fallback 4) [] rfl .svc (by decide +kernel) (by decide +kernel)
    13 0x1000 (.inl rfl) (by decide +kernel)
  exact absurd restored (by decide +kernel)

end ZeeboLle.Jit
