import ZeeboLle.System.Scheduler

/-! Whether a thread that was handed the processor runs in its own address space. The call
only queues the switch; it takes effect when the scheduler loop drains the queue, which
one of the two backends never does. -/
namespace ZeeboLle.System

open Unicorn L4

/-- The next Core 0 slice starts directly after a handoff to a thread of space `sid`: it
is what the last trap of this turn's slice did, and the space had regions at that time. -/
def HandedTo (machine : Machine) (cycle : Cycle) (sid : Word) : Prop :=
  ∃ front last, cycle.slice.traps = front ++ [last] ∧
    let trap := (((machine.core0.startSlice machine.c).afterTraps front).guest last).trapped
    let answer := trap.dispatch (trap.regs.readSp &&& 0xff#32)
    machine.core0.halted = false ∧ answer.didHandoff = true ∧
      sid = answer.sys.threadTable.threadSpace answer.sys.threadTable.currentTid ∧ sid ≠ 0 ∧
      answer.sys.spaceManager.hasSpace sid = true ∧ (machine.step cycle).core0.halted = false

/-- The thread starts with its own space active. -/
def RunsInOwnSpace (machine : Machine) (cycle : Cycle) : Prop :=
  ∀ sid, HandedTo machine cycle sid →
    (machine.step cycle).core0.sys.spaceManager.activeSid = sid

/-- The switch is drained by the interpreter's branch or has nothing to do. -/
def SwitchSettled (machine : Machine) (cycle : Cycle) : Prop :=
  ∀ sid, HandedTo machine cycle sid →
    machine.core0.backend = .unicorn ∨ machine.core0.sys.spaceManager.activeSid = sid

/-- A handoff leaves a request for the new thread's space, when that space is known. -/
theorem Handoff.queues {sys : LleSystem} {syscall sid : Word} {answer : Answer}
    (handoff : Handoff sys syscall answer) (handed : answer.didHandoff = true)
    (own : sid = answer.sys.threadTable.threadSpace answer.sys.threadTable.currentTid)
    (nonNil : sid ≠ 0) (known : answer.sys.spaceManager.hasSpace sid = true) :
    answer.sys.spaceManager.hasPendingActivate = true ∧
      answer.sys.spaceManager.pendingSid = sid := by
  cases handoff with
  | stays _ none undisturbed binding => simp [none] at handed
  | switches saved next thread call regs spaces different kept others =>
    have own : sid = saved.threadTable.threadSpace next := by
      rw [own, LleSystem.handTo_threadTable]
      rfl
    dsimp only at known ⊢
    rw [LleSystem.handTo_spaceManager, LleSystem.queueSpace_eq, ← own] at known ⊢
    dsimp only at known ⊢
    split
    · exact ⟨rfl, rfl⟩
    · rename_i unknown
      rw [if_neg unknown] at known
      exact absurd ⟨nonNil, known⟩ unknown

/-- The manager after a turn is the one the loop left after the slice. -/
theorem step_spaceManager {machine : Machine} (running : machine.core0.halted = false)
    (cycle : Cycle) :
    (machine.step cycle).core0.sys.spaceManager =
      ((machine.core0.execute machine.c cycle.slice).finish cycle.slice).sys.spaceManager := by
  rw [← Core0.runSlice_running running]
  exact (Core0.deliver_frame ..).2

/-- The interpreter's branch drains the request the handoff left. -/
theorem runsInOwnSpace_unicorn {machine : Machine} {cycle : Cycle} {sid : Word}
    (backend : machine.core0.backend = .unicorn) (handed : HandedTo machine cycle sid) :
    (machine.step cycle).core0.sys.spaceManager.activeSid = sid := by
  obtain ⟨front, last, traps, running, switched, own, nonNil, known, _⟩ := handed
  let core := ((machine.core0.startSlice machine.c).afterTraps front).guest last
  have ended : (machine.core0.execute machine.c cycle.slice).sys.spaceManager =
      (core.trapped.dispatch (core.trapped.regs.readSp &&& 0xff#32)).sys.spaceManager := by
    rw [Core0.execute_spaceManager, traps, ← Core0.trap_spaceManager, Core0.afterTraps,
      List.foldl_append]
    rfl
  have still := (machine.core0.execute_sameCore machine.c cycle.slice).backend.trans backend
  obtain ⟨pending, wanted⟩ := (LleSystem.dispatch_handoff ..).queues switched own nonNil known
  rw [← ended] at pending wanted known
  rw [step_spaceManager running, (Core0.finish_unicorn _ still).spaces,
    SpaceManager.drainActivate_activeSid _ pending (wanted ▸ known), wanted]

/-- The recompiler's branch never changes the active space. -/
theorem step_activeSid_dynarmic {machine : Machine} (backend : machine.core0.backend = .dynarmic)
    (running : machine.core0.halted = false) (cycle : Cycle) :
    (machine.step cycle).core0.sys.spaceManager.activeSid =
      machine.core0.sys.spaceManager.activeSid := by
  have same := machine.core0.execute_sameCore machine.c cycle.slice
  rw [step_spaceManager running, (Core0.finish_dynarmic _ (same.backend.trans backend)).spaces,
    same.binding.activeSid]

/-- Over any run, a thread that was just handed the processor starts in its own space
exactly when, each time, the interpreter runs Core 0 or that space was active already. -/
theorem runsInOwnSpace_iff_switchSettled (start : Machine) (cycles : List Cycle) :
    AtEveryTurn RunsInOwnSpace start cycles ↔ AtEveryTurn SwitchSettled start cycles := by
  apply atEveryTurn_congr
  intro machine cycle
  constructor
  · intro own sid handed
    cases backend : machine.core0.backend with
    | unicorn => exact .inl rfl
    | dynarmic =>
      obtain ⟨_, _, _, running, _⟩ := id handed
      exact .inr ((step_activeSid_dynarmic backend running cycle).symm.trans (own sid handed))
  · intro settled sid handed
    cases backend : machine.core0.backend with
    | unicorn => exact runsInOwnSpace_unicorn backend handed
    | dynarmic =>
      obtain ⟨_, _, _, running, _⟩ := id handed
      have active := (settled sid handed).resolve_left (by simp [backend])
      exact (step_activeSid_dynarmic backend running cycle).trans active

/-- Thread 1 runs; thread 2 belongs to space 2, which has one page. -/
def twoSpaceThreads : LleSystem :=
  { yielding 0x1000 with
    threadTable := twoThreads.setThreadSpace 2 2
    spaceManager := SpaceManager.empty.record 2 0x10000 0x1000 Prot.all 0x9000 }

/-- Guest code that ends in a trap with `L4_ThreadSwitch`. -/
def switchBurst : Burst where
  regs := switchTrap 0x1000 0xffffff04
  jit := JitRegs.syncFromUnicorn (switchTrap 0x1000 0xffffff04)
  ram := fun _ => 0
  host := fun _ => 0
  insns := 0

/-- A turn whose Core 0 slice is ended by that trap. -/
def switchCycle : Cycle := ⟨⟨[switchBurst], none, false⟩, RegFile.blank, false,
  Device.PeripheralBus.idle, Device.VicState.idle⟩

/-- On the recompiler thread 2 starts with no space active. -/
theorem not_runsInOwnSpace_dynarmic :
    ¬ AtEveryTurn RunsInOwnSpace (Machine.boot .dynarmic twoSpaceThreads) [switchCycle] := by
  intro every
  have own := every [] switchCycle [] rfl 2
    ⟨[], switchBurst, rfl, by decide, by decide, by decide, by decide, by decide, by decide⟩
  exact absurd own (by decide)

end ZeeboLle.System
