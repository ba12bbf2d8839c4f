import ZeeboLle.System.Trap

/-! What a system call does to the running thread and to the saved contexts, and what a
thread that gave up the processor finds when it runs again. -/
namespace ZeeboLle.System

open Unicorn L4

/-- Either the caller stays current and no saved context changes, or the caller is saved
and another thread is handed the processor. No call switches spaces by itself. -/
inductive Handoff (sys : LleSystem) (syscall : Word) : Answer → Prop where
  | stays (answer : Answer) (handoff : answer.didHandoff = false)
      (undisturbed : sys.threadTable.Undisturbed answer.sys.threadTable)
      (binding : answer.sys.spaceManager.SameBinding sys.spaceManager) :
      Handoff sys syscall answer
  | switches (saved : LleSystem) (next : Word) (thread : ThreadInfo)
      (call : syscall = 0x00 ∨ syscall = 0x04) (regs : saved.regs = sys.regs)
      (spaces : saved.spaceManager = sys.spaceManager)
      (different : next ≠ sys.threadTable.currentTid)
      (own : (sys.threadTable.getThread sys.threadTable.currentTid).isSome = true →
        saved.threadTable.loadContext sys.threadTable.currentTid = some (cpuContextRead sys.regs))
      (others : ∀ tid, tid ≠ sys.threadTable.currentTid →
        saved.threadTable.loadContext tid = sys.threadTable.loadContext tid) :
      Handoff sys syscall ⟨saved.handTo next thread, 0, true⟩

namespace LleSystem

variable {sys : LleSystem} {tid next : Word} {thread : ThreadInfo}

theorem injectMessage_eq (sys : LleSystem) : ∃ mem, sys.injectMessage = { sys with mem } := by
  unfold injectMessage
  dsimp only
  split
  · exact ⟨_, rfl⟩
  · split
    · exact ⟨_, rfl⟩
    · exact ⟨_, rfl⟩

theorem queueSpace_eq (sys : LleSystem) (tid : Word) :
    sys.queueSpace tid = { sys with
      spaceManager :=
        if sys.threadTable.threadSpace tid ≠ 0 ∧
            sys.spaceManager.hasSpace (sys.threadTable.threadSpace tid) = true then
          sys.spaceManager.queueActivate (sys.threadTable.threadSpace tid)
        else sys.spaceManager } := by
  rw [queueSpace]
  split
  · rfl
  · rfl

theorem injectEnvironment_eq (sys : LleSystem) (targetSp : Word) :
    ∃ mem, sys.injectEnvironment targetSp = { sys with mem } := by
  rw [injectEnvironment]
  split
  · exact ⟨_, rfl⟩
  · exact ⟨_, rfl⟩

theorem enterThread_eq (sys : LleSystem) (tid : Word) (thread : ThreadInfo) :
    ∃ regs mem, sys.enterThread tid thread = { sys with regs, mem } := by
  unfold enterThread
  dsimp only
  split
  · exact ⟨_, _, rfl⟩
  · split
    · obtain ⟨mem, injected⟩ := injectEnvironment_eq { sys with
        regs := (sys.regs.writePc (withT thread.ip (thread.ip &&& 1#32))).writeSp thread.sp } thread.sp
      exact ⟨_, mem, injected⟩
    · exact ⟨_, _, rfl⟩

/-- Handing over makes the thread current, queues its space and loads its registers. -/
theorem handTo_eq (sys : LleSystem) (tid : Word) (thread : ThreadInfo) :
    ∃ regs mem, sys.handTo tid thread = { sys with
      regs
      mem
      threadTable := sys.threadTable.setCurrentTid tid
      spaceManager := (sys.queueSpace tid).spaceManager } := by
  rw [handTo, queueSpace_eq, queueSpace_eq]
  dsimp only
  split
  · exact ⟨_, _, rfl⟩
  · obtain ⟨regs, mem, entered⟩ := enterThread_eq (LleSystem.queueSpace
      { sys with threadTable := sys.threadTable.setCurrentTid tid } tid) tid thread
    rw [queueSpace_eq] at entered
    exact ⟨regs, mem, entered⟩

theorem handTo_threadTable (sys : LleSystem) (tid : Word) (thread : ThreadInfo) :
    (sys.handTo tid thread).threadTable = sys.threadTable.setCurrentTid tid := by
  obtain ⟨regs, mem, same⟩ := sys.handTo_eq tid thread
  rw [same]

theorem handTo_spaceManager (sys : LleSystem) (tid : Word) (thread : ThreadInfo) :
    (sys.handTo tid thread).spaceManager = (sys.queueSpace tid).spaceManager := by
  obtain ⟨regs, mem, same⟩ := sys.handTo_eq tid thread
  rw [same]

/-- A thread with a saved context resumes from it. -/
theorem handTo_regs {ctx : CpuContext} (saved : sys.threadTable.loadContext tid = some ctx) :
    (sys.handTo tid thread).regs = cpuContextWrite sys.regs ctx := by
  have found : (sys.threadTable.setCurrentTid tid).loadContext tid = some ctx := saved
  rw [handTo, queueSpace_eq]
  dsimp only
  rw [found]

theorem nextThread_different (found : sys.nextThread = some (next, thread)) :
    next ≠ sys.threadTable.currentTid := by
  unfold nextThread at found
  dsimp only at found
  split at found
  · rename_i candidate
    split at found
    · split at found
      · cases found
        exact candidate.2
      · cases found
    · cases found
  · cases found

private theorem saveCurrent_own
    (present : (sys.threadTable.getThread sys.threadTable.currentTid).isSome = true) :
    sys.saveCurrent.threadTable.loadContext sys.threadTable.currentTid =
      some (cpuContextRead sys.regs) := by
  obtain ⟨info, found⟩ := Option.isSome_iff_exists.mp present
  exact ThreadTable.loadContext_saveContext_self (ThreadTable.ne_zero_of_getThread found) _

private theorem saveCurrent_other (different : tid ≠ sys.threadTable.currentTid) :
    sys.saveCurrent.threadTable.loadContext tid = sys.threadTable.loadContext tid :=
  ThreadTable.loadContext_saveContext_other different _

theorem l4ThreadSwitch_handoff (sys : LleSystem) : Handoff sys 0x04 sys.l4ThreadSwitch := by
  unfold l4ThreadSwitch
  split
  · exact .stays _ rfl (.refl _) (.refl _)
  · rename_i next thread found
    exact .switches sys.saveCurrent next thread (.inr rfl) rfl rfl (nextThread_different found)
      saveCurrent_own fun tid different => saveCurrent_other different

private theorem saveCaller_eq (sys : LleSystem) :
    ∃ threadTable, sys.saveCaller = { sys with threadTable } := by
  unfold saveCaller
  dsimp only
  split
  · exact ⟨_, rfl⟩
  · exact ⟨_, rfl⟩

/-- Saving the caller of `L4_Ipc` saves the same context; only its entry point and stack
are written again. -/
private theorem saveCaller_context {info : ThreadInfo}
    (present : sys.threadTable.getThread sys.threadTable.currentTid = some info) (tid : Word) :
    sys.saveCaller.threadTable.loadContext tid = sys.saveCurrent.threadTable.loadContext tid := by
  simp only [saveCaller, present]
  exact (ThreadTable.undisturbed_edit _ _ (by intro info; exact ⟨rfl, rfl⟩)).2 tid

private theorem saveCaller_own (sys : LleSystem)
    (present : (sys.threadTable.getThread sys.threadTable.currentTid).isSome = true) :
    sys.saveCaller.threadTable.loadContext sys.threadTable.currentTid =
      some (cpuContextRead sys.regs) := by
  obtain ⟨info, found⟩ := Option.isSome_iff_exists.mp present
  rw [saveCaller_context found]
  exact saveCurrent_own present

private theorem saveCaller_other (sys : LleSystem) (different : tid ≠ sys.threadTable.currentTid) :
    sys.saveCaller.threadTable.loadContext tid = sys.threadTable.loadContext tid := by
  cases found : sys.threadTable.getThread sys.threadTable.currentTid with
  | none => simp only [saveCaller, found]
  | some info =>
    rw [saveCaller_context found]
    exact saveCurrent_other different

theorem l4Ipc_handoff (sys : LleSystem) : Handoff sys 0x00 sys.l4Ipc := by
  obtain ⟨mem, message⟩ := sys.injectMessage_eq
  unfold l4Ipc
  rw [message]
  dsimp only
  split
  · exact .stays _ rfl (.refl _) (.refl _)
  · rename_i next thread found
    obtain ⟨table, saved⟩ := saveCaller_eq { sys with mem }
    exact .switches _ next thread (.inl rfl) (by rw [saved]) (by rw [saved])
      (nextThread_different found)
      (saveCaller_own { sys with mem }) fun tid different => saveCaller_other { sys with mem } different

/-- Exchanging registers leaves saved contexts alone, those of the target included. -/
theorem l4ExchangeRegisters_undisturbed (sys : LleSystem) :
    sys.threadTable.Undisturbed sys.l4ExchangeRegisters.sys.threadTable := by
  unfold l4ExchangeRegisters
  dsimp only
  have exchanged := ThreadTable.undisturbed_onExchangeRegisters sys.threadTable (sys.regs.r 0)
    (sys.regs.r 1) (sys.regs.r 2) (sys.regs.r 3) (sys.regs.r 4)
  generalize sys.threadTable.onExchangeRegisters (sys.regs.r 0) (sys.regs.r 1) (sys.regs.r 2)
    (sys.regs.r 3) (sys.regs.r 4) = table at exchanged ⊢
  have handled : sys.threadTable.Undisturbed (if ThreadTable.exregsUhandle (sys.regs.r 1) then
      table.setUserDefHandle (sys.regs.r 0) (sys.regs.r 5) else table) := by
    split
    · exact exchanged.trans (ThreadTable.undisturbed_setUserDefHandle ..)
    · exact exchanged
  generalize (if ThreadTable.exregsUhandle (sys.regs.r 1) then
    table.setUserDefHandle (sys.regs.r 0) (sys.regs.r 5) else table) = table at handled ⊢
  split
  · exact handled.trans (ThreadTable.undisturbed_setThreadSpace ..)
  · exact handled

private theorem linkBase_or_keep (mgr : SpaceManager) (ext base : Word) (condition : Prop)
    [Decidable condition] : (if condition then mgr.linkBase ext base else mgr).SameBinding mgr := by
  split
  · exact SpaceManager.linkBase_sameBinding ..
  · exact .refl _

theorem recordItem_sameBinding (pool : PhysPool) (sid : Word) (mgr : SpaceManager)
    (item : MapItem) : (recordItem pool sid mgr item).SameBinding mgr := by
  unfold recordItem
  split
  · exact .refl _
  · dsimp only
    split
    · exact .refl _
    · exact SpaceManager.record_sameBinding ..

theorem recordItems_sameBinding (pool : PhysPool) (sid : Word) (mgr : SpaceManager)
    (items : List MapItem) : (items.foldl (recordItem pool sid) mgr).SameBinding mgr := by
  induction items generalizing mgr with
  | nil => exact .refl _
  | cons item rest ih => exact (ih _).trans (recordItem_sameBinding pool sid mgr item)

/-- The whole case analysis of the dispatcher, once. -/
theorem dispatch_handoff (sys : LleSystem) (syscall : Word) :
    Handoff sys syscall (sys.dispatch syscall) := by
  unfold dispatch
  split
  · rename_i number
    rw [show syscall = 0x00 from BitVec.eq_of_toNat_eq number]
    exact l4Ipc_handoff sys
  · rename_i number
    rw [show syscall = 0x04 from BitVec.eq_of_toNat_eq number]
    exact l4ThreadSwitch_handoff sys
  · exact .stays _ rfl (ThreadTable.undisturbed_onThreadControl ..) (linkBase_or_keep ..)
  · exact .stays _ rfl (l4ExchangeRegisters_undisturbed sys) (.refl _)
  · unfold l4MapControl
    dsimp only
    split
    · exact .stays _ rfl (.refl _) (recordItems_sameBinding ..)
    · exact .stays _ rfl (.refl _) (.refl _)
  · exact .stays _ rfl (.refl _) (.refl _)
  · exact .stays _ rfl (.refl _) (.refl _)
  · exact .stays _ rfl (.refl _) (.refl _)
  · exact .stays _ rfl (.refl _) (.refl _)
  · exact .stays _ rfl (.refl _) (.refl _)

/-- No call switches spaces by itself. -/
theorem dispatch_sameBinding (sys : LleSystem) (syscall : Word) :
    (sys.dispatch syscall).sys.spaceManager.SameBinding sys.spaceManager := by
  have handoff := sys.dispatch_handoff syscall
  generalize sys.dispatch syscall = answer at handoff ⊢
  cases handoff with
  | stays _ handoff undisturbed binding => exact binding
  | switches saved next thread call regs spaces different own others =>
    dsimp only
    rw [handTo_spaceManager, queueSpace_eq, ← spaces]
    dsimp only
    split
    · exact ⟨rfl, rfl, rfl, rfl⟩
    · exact .refl _

/-- The hook is the answered call followed by the return path. -/
theorem c0IntrHook_handoff (sys : LleSystem) :
    ∃ answer, Handoff sys (sys.regs.readSp &&& 0xff#32) answer ∧
      sys.c0IntrHook.threadTable = answer.sys.threadTable ∧
      sys.c0IntrHook.regs = (returnPath (answer.sys.regs.write 0 answer.res)
        (sys.regs.readSp &&& 0xff#32) sys.regs.readPc (sys.regs.r 12) sys.regs.readLr
        answer.didHandoff).1 :=
  ⟨_, sys.dispatch_handoff _, rfl, rfl⟩

/-- The registers a call to `L4_Ipc` or `L4_ThreadSwitch` leaves when no other thread
takes over. -/
def stayed (sys : LleSystem) : RegFile :=
  (returnPath (sys.regs.write 0 0) 0x00 sys.regs.readPc (sys.regs.r 12) sys.regs.readLr false).1

theorem c0IntrHook_stays (alone : sys.nextThread = none)
    (call : sys.regs.readSp &&& 0xff#32 = 0x00 ∨ sys.regs.readSp &&& 0xff#32 = 0x04) :
    sys.c0IntrHook.regs = sys.stayed := by
  rcases call with ipc | switch
  · obtain ⟨mem, message⟩ := sys.injectMessage_eq
    have same : LleSystem.nextThread { sys with mem } = none := alone
    simp only [c0IntrHook, ipc]
    simp [dispatch, l4Ipc, message, same, stayed]
  · simp only [c0IntrHook, switch]
    simp [dispatch, l4ThreadSwitch, alone, stayed, returnPath]

end LleSystem

/-- Everything that happens while a thread waits: the guest, devices and scheduler may
change anything but the thread table, and other threads trap. -/
inductive Waits (tid : Word) (start : LleSystem) : LleSystem → Prop where
  | now : Waits tid start start
  | ran {before after : LleSystem} (earlier : Waits tid start before)
      (table : after.threadTable = before.threadTable) : Waits tid start after
  | trapped {before : LleSystem} (earlier : Waits tid start before)
      (away : before.c0IntrHook.threadTable.currentTid ≠ tid) : Waits tid start before.c0IntrHook

/-- Two register files that agree on all but the result in r0. -/
def AgreeUpToResult (left right : RegFile) : Prop :=
  (∀ index, index ≠ 0 → left.r index = right.r index) ∧ left.readSp = right.readSp ∧
    left.readLr = right.readLr ∧ left.readPc = right.readPc ∧ left.cpsr = right.cpsr

/-- A thread that trapped with `trap` runs on as if the call had simply returned. -/
def ReturnsInto (trap : LleSystem) (regs : RegFile) : Prop :=
  AgreeUpToResult regs (trap.regs.writeSp (trap.regs.r 12)) ∧ AgreeUpToResult regs trap.stayed

variable {sys before : LleSystem} {tid : Word} {left right : RegFile}

/-- A caller known to the table that loses the processor has been saved. -/
theorem c0IntrHook_saves
    (present : (sys.threadTable.getThread sys.threadTable.currentTid).isSome = true)
    (away : sys.c0IntrHook.threadTable.currentTid ≠ sys.threadTable.currentTid) :
    sys.c0IntrHook.threadTable.loadContext sys.threadTable.currentTid =
      some (cpuContextRead sys.regs) := by
  obtain ⟨answer, handoff, table, _⟩ := sys.c0IntrHook_handoff
  rw [table] at away ⊢
  cases handoff with
  | stays _ handoff undisturbed binding => exact absurd undisturbed.1 away
  | switches saved next thread call regs spaces different own others =>
    rw [LleSystem.handTo_threadTable saved next thread]
    exact own present

/-- A trap of one thread keeps the saved contexts of all others. -/
theorem c0IntrHook_context (other : tid ≠ sys.threadTable.currentTid) :
    sys.c0IntrHook.threadTable.loadContext tid = sys.threadTable.loadContext tid := by
  obtain ⟨answer, handoff, table, _⟩ := sys.c0IntrHook_handoff
  rw [table]
  cases handoff with
  | stays _ handoff undisturbed binding => exact undisturbed.2 tid
  | switches saved next thread call regs spaces different own others =>
    rw [LleSystem.handTo_threadTable saved next thread]
    exact others tid other

/-- A waiting thread is not current, and its saved context waits with it. -/
theorem Waits.context {start : LleSystem} (waits : Waits tid start before)
    (away : start.threadTable.currentTid ≠ tid) :
    before.threadTable.currentTid ≠ tid ∧
      before.threadTable.loadContext tid = start.threadTable.loadContext tid := by
  induction waits with
  | now => exact ⟨away, rfl⟩
  | ran earlier table ih => rwa [table]
  | trapped earlier still ih => exact ⟨still, (c0IntrHook_context ih.1.symm).trans ih.2⟩

/-- A saved thread that becomes current runs from its context, with the result in r0. -/
theorem c0IntrHook_resumes {ctx : CpuContext} (other : sys.threadTable.currentTid ≠ tid)
    (back : sys.c0IntrHook.threadTable.currentTid = tid)
    (saved : sys.threadTable.loadContext tid = some ctx) :
    sys.c0IntrHook.regs = (cpuContextWrite sys.regs ctx).write 0 0 := by
  obtain ⟨answer, handoff, table, regs⟩ := sys.c0IntrHook_handoff
  rw [table] at back
  rw [regs]
  cases handoff with
  | stays _ handoff undisturbed binding => exact absurd (undisturbed.1.symm.trans back) other
  | switches stored next thread call kept spaces different own others =>
    rw [LleSystem.handTo_threadTable stored next thread] at back
    have same : next = tid := back
    subst same
    rw [LleSystem.handTo_regs ((others next different).trans saved), kept]
    rcases call with ipc | switch
    · simp [LleSystem.returnPath, ipc]
    · simp [LleSystem.returnPath, switch]

theorem AgreeUpToResult.symm (agree : AgreeUpToResult left right) : AgreeUpToResult right left :=
  ⟨fun index result => (agree.1 index result).symm, agree.2.1.symm, agree.2.2.1.symm,
    agree.2.2.2.1.symm, agree.2.2.2.2.symm⟩

theorem AgreeUpToResult.trans {third : RegFile} (first : AgreeUpToResult left right)
    (second : AgreeUpToResult right third) : AgreeUpToResult left third :=
  ⟨fun index result => (first.1 index result).trans (second.1 index result),
    first.2.1.trans second.2.1, first.2.2.1.trans second.2.2.1,
    first.2.2.2.1.trans second.2.2.2.1, first.2.2.2.2.trans second.2.2.2.2⟩

/-- Saving and restoring is exact, whatever ran in between. -/
theorem agree_cpuContextWrite (regs trap : RegFile) :
    AgreeUpToResult ((cpuContextWrite regs (cpuContextRead trap)).write 0 0) trap := by
  obtain ⟨general, sp, lr, pc, cpsr⟩ := cpuContextWrite_spec regs (cpuContextRead trap)
  refine ⟨fun index result => ?_, sp, lr, ?_, cpsr⟩
  · exact (Function.update_of_ne result _ _).trans (congrFun general index)
  · exact pc.trans trap.readPc_high

private theorem applyTbit_high (pc : Word) :
    LleSystem.applyTbit pc pc &&& ~~~1#32 = pc &&& ~~~1#32 := by
  unfold LleSystem.applyTbit
  split
  · rw [BitVec.and_assoc, BitVec.and_self]
  · exact withT_high pc 1#32

private theorem applyTbit_low (pc : Word) :
    LleSystem.applyTbit pc pc &&& 1#32 = if LleSystem.armStub pc then 0#32 else 1#32 := by
  unfold LleSystem.applyTbit
  split
  · exact withT_low (.inl rfl) pc
  · exact withT_low (.inr rfl) pc

private theorem agree_restoreSp {regs : RegFile} (sp : regs.r 12 = regs.readSp) :
    AgreeUpToResult regs (LleSystem.restoreSp (regs.write 0 0) (regs.r 12)) := by
  have general : ∀ index, index ≠ 0 → regs.r index = (regs.write 0 0).r index :=
    fun index result => (Function.update_of_ne result _ _).symm
  unfold LleSystem.restoreSp
  split
  · exact ⟨general, sp.symm.trans (RegFile.writeSp_readSp ..).symm, rfl, rfl, rfl⟩
  · exact ⟨general, rfl, rfl, rfl, rfl⟩

/-- Once the stack pointer is right, only T can tell the trap from the returned call. -/
theorem agree_stayed_iff (sys : LleSystem) (sp : sys.regs.r 12 = sys.regs.readSp) :
    AgreeUpToResult sys.regs sys.stayed ↔
      tBit sys.regs.cpsr = if LleSystem.armStub sys.regs.readPc then 0#32 else 1#32 := by
  have low := applyTbit_low sys.regs.readPc
  obtain ⟨general, stack, link, _, cpsr⟩ := agree_restoreSp sp
  constructor
  · intro agree
    rw [agree.2.2.2.2, ← low]
    exact RegFile.tBit_writePc _ _
  · intro bit
    rw [← low, cpsr] at bit
    refine ⟨general, ?_, ?_, ?_, ?_⟩
    · exact stack.trans (RegFile.writePc_readSp ..).symm
    · exact link.trans (RegFile.writePc_readLr ..).symm
    · refine Eq.trans ?_ (RegFile.writePc_readPc ..).symm
      rw [applyTbit_high, RegFile.readPc_high]
    · exact cpsr.trans (RegFile.writePc_cpsr bit.symm).symm

theorem agree_writeSp_iff (regs : RegFile) (value : Word) :
    AgreeUpToResult regs (regs.writeSp value) ↔ value = regs.readSp := by
  constructor
  · intro agree
    exact (agree.2.1.trans (RegFile.writeSp_readSp ..)).symm
  · intro same
    exact ⟨fun _ _ => rfl, same.symm.trans (RegFile.writeSp_readSp ..).symm, rfl, rfl, rfl⟩

/-- A known thread that trapped, lost the processor to another thread and gets it back
after any wait runs on as if its call had returned exactly when its stack pointer was
still the one of the trap and T already was what the return path would have set. -/
theorem resumed_returnsInto_iff (trap before : LleSystem)
    (present : (trap.threadTable.getThread trap.threadTable.currentTid).isSome = true)
    (away : trap.c0IntrHook.threadTable.currentTid ≠ trap.threadTable.currentTid)
    (waits : Waits trap.threadTable.currentTid trap.c0IntrHook before)
    (back : before.c0IntrHook.threadTable.currentTid = trap.threadTable.currentTid) :
    ReturnsInto trap before.c0IntrHook.regs ↔
      trap.regs.r 12 = trap.regs.readSp ∧
        tBit trap.regs.cpsr = if LleSystem.armStub trap.regs.readPc then 0#32 else 1#32 := by
  obtain ⟨other, kept⟩ := waits.context away
  have saved := kept.trans (c0IntrHook_saves present away)
  have exact_ : AgreeUpToResult before.c0IntrHook.regs trap.regs := by
    rw [c0IntrHook_resumes other back saved]
    exact agree_cpuContextWrite before.regs trap.regs
  constructor
  · rintro ⟨own, returned⟩
    have sp := (agree_writeSp_iff ..).mp (exact_.symm.trans own)
    exact ⟨sp, (agree_stayed_iff trap sp).mp (exact_.symm.trans returned)⟩
  · rintro ⟨sp, bit⟩
    exact ⟨exact_.trans ((agree_writeSp_iff ..).mpr sp),
      exact_.trans ((agree_stayed_iff trap sp).mpr bit)⟩

/-- Two threads of the boot servers; thread 1 runs. -/
def twoThreads : ThreadTable :=
  ((ThreadTable.empty.edit 1 fun thread => { thread with ip := 0xb0000100, active := true }).edit 2
    fun thread => { thread with ip := 0xb0000200, active := true }).setCurrentTid 1

/-- A trap with `L4_ThreadSwitch` from the fixed stub, in user mode. -/
def switchTrap (userSp trapSp : Word) : RegFile where
  r := fun index => if index = 12 then userSp else 0
  sp := fun _ => trapSp
  lr := fun _ => 0xb0000104
  spsr := fun _ => 0
  pc := 0xb000c7c8
  cpsr := 0x10

/-- Thread 1 gives up the processor. -/
def yielding (userSp : Word) : LleSystem where
  regs := switchTrap userSp 0xffffff04
  mem := Memory.blank
  threadTable := twoThreads
  serviceRegistry := ServiceRegistry.empty
  spaceManager := SpaceManager.empty
  spaceMap := fun _ => none
  vtlb := VtlbLut.empty
  appsPool := ⟨0, 0, nullptr⟩
  entry := 0
  insns := 0

/-- Thread 2 has run and gives it back. -/
def yieldingBack (userSp : Word) : LleSystem :=
  { (yielding userSp).c0IntrHook with regs := switchTrap 0x2000 0xffffff04 }

theorem resumed_returnsInto_sameStack :
    ReturnsInto (yielding 0xffffff04) (yieldingBack 0xffffff04).c0IntrHook.regs :=
  (resumed_returnsInto_iff (yielding 0xffffff04) (yieldingBack 0xffffff04) (by decide) (by decide)
    (.ran .now rfl) (by decide)).mpr (by decide)

/-- With a stack of its own the thread resumes on the trap number. -/
theorem not_returnsInto_userStack :
    ((yielding 0x1000).threadTable.getThread 1).isSome = true ∧
      (yielding 0x1000).threadTable.currentTid = 1 ∧
      (yielding 0x1000).c0IntrHook.threadTable.currentTid ≠ 1 ∧
      Waits 1 (yielding 0x1000).c0IntrHook (yieldingBack 0x1000) ∧
      (yieldingBack 0x1000).c0IntrHook.threadTable.currentTid = 1 ∧
      ¬ ReturnsInto (yielding 0x1000) (yieldingBack 0x1000).c0IntrHook.regs := by
  refine ⟨by decide, by decide, by decide, .ran .now rfl, by decide, ?_⟩
  intro returns
  exact absurd returns.1.2.1 (by decide)

end ZeeboLle.System
