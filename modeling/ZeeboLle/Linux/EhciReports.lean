import ZeeboLle.Linux.Ehci

/-! Keyboard reports on their way to the guest. Every report taken from the queue is on record,
and so is every qTD executed; what is delivered is what was taken where the buffer could be
written. -/
namespace ZeeboLle.Linux

open Unicorn Paging

/-- The buffer of a call's qTD can be written. -/
def HidCall.fits (mapped : Mapping) (call : HidCall) : Bool :=
  mapped.backed (call.ram.read32 (call.qtd + 12)) 8

/-- What an executed qTD delivered, and for whom. -/
def Xfer.delivery (xfer : Xfer) : Option HidCall :=
  xfer.report.map fun report => ⟨xfer.endpoint, xfer.qtd, report, xfer.before.ram⟩

/-- The qTD was Active and is not any more, and but for its token memory changes in the
buffer alone. This is judged where the qTD is executed: that the schedules then store the token
into the qTD behind an overlay, or the whole qTD into the overlay, is part of the same
completion. -/
structure Completes (xfer : Xfer) (report : HidReport) : Prop where
  active : tokenActive (xfer.before.ram.read32 (xfer.qtd + 8)) = true
  done : tokenActive (xfer.after.ram.read32 (xfer.qtd + 8)) = false
  ram : ∃ token, xfer.after.ram =
    (xfer.before.ram.store (xfer.before.ram.read32 (xfer.qtd + 12)) report.toList).write32 (xfer.qtd + 8) token

/-- Taken reports and the queue are what was queued, and delivered is what was taken and fitted. -/
structure Accounted (mapped : Mapping) (queued : List HidReport) (ehci : Ehci) : Prop where
  order : ehci.hidTaken.map HidCall.report ++ ehci.hidReports = queued
  delivered : ehci.usbXfers.filterMap Xfer.delivery = ehci.hidTaken.filter (HidCall.fits mapped)
  completes : ∀ xfer ∈ ehci.usbXfers, ∀ report, xfer.report = some report → Completes xfer report

variable {mapped : Mapping} {queued : List HidReport} {ehci : Ehci}

/-- What leaves the queue and the records alone. -/
theorem Accounted.of_same (accounted : Accounted mapped queued ehci) {other : Ehci}
    (taken : other.hidTaken = ehci.hidTaken) (reports : other.hidReports = ehci.hidReports)
    (xfers : other.usbXfers = ehci.usbXfers) : Accounted mapped queued other := by
  obtain ⟨order, delivered, completes⟩ := accounted
  exact ⟨by rw [taken, reports, order], by rw [taken, xfers, delivered], by rwa [xfers]⟩

theorem Accounted.setRam (accounted : Accounted mapped queued ehci) (ram : FlatMemory) :
    Accounted mapped queued (ehci.setRam ram) := accounted.of_same rfl rfl rfl

theorem Accounted.usbRaiseIrq (accounted : Accounted mapped queued ehci) :
    Accounted mapped queued ehci.usbRaiseIrq := by
  unfold Ehci.usbRaiseIrq
  dsimp only
  split
  · exact accounted.of_same rfl rfl rfl
  · exact accounted.of_same rfl rfl rfl

/-- A qTD that is executed without a report. -/
theorem Accounted.complete (accounted : Accounted mapped queued ehci) (endpoint qtd tok : Word)
    (moved : Nat) (state : UsbState) :
    Accounted mapped queued (ehci.complete mapped endpoint qtd tok none moved state) := by
  obtain ⟨order, delivered, completes⟩ := accounted
  refine ⟨order, ?_, ?_⟩
  · rw [Ehci.complete, List.filterMap_append, delivered]
    exact List.append_nil _
  · intro xfer member report
    rcases List.mem_append.mp member with earlier | new
    · exact completes xfer earlier report
    · rw [List.mem_singleton.mp new]
      rintro ⟨⟩

/-- A report taken is delivered where the buffer can be written, and lost elsewhere. -/
theorem Accounted.take (accounted : Accounted mapped queued ehci) (endpoint : Word) {qtd : Word}
    {report : HidReport} {rest : List HidReport} (reports : ehci.hidReports = report :: rest)
    (backed : mapped.backed qtd 32 = true)
    (active : tokenActive (ehci.state.ram.read32 (qtd + 8)) = true) :
    let call : HidCall := ⟨endpoint, qtd, report, ehci.state.ram⟩
    let taken := { ehci with hidReports := rest, hidTaken := ehci.hidTaken ++ [call] }
    let state := { ehci.state with
      ram := ehci.state.ram.store (ehci.state.ram.read32 (qtd + 12)) report.toList }
    (call.fits mapped = true → Accounted mapped queued
      (taken.complete mapped endpoint qtd (ehci.state.ram.read32 (qtd + 8)) (some report) 8 state)) ∧
    (call.fits mapped = false → Accounted mapped queued taken) := by
  intro call taken state
  obtain ⟨order, delivered, completes⟩ := accounted
  have inOrder : taken.hidTaken.map HidCall.report ++ taken.hidReports = queued := by
    rw [← order, reports]
    simp [taken, call]
  have records : taken.hidTaken.filter (HidCall.fits mapped) =
      ehci.hidTaken.filter (HidCall.fits mapped) ++ [call].filter (HidCall.fits mapped) :=
    List.filter_append ..
  constructor
  · intro fits
    have token : writeWord mapped state.ram (qtd + 8) (tokenDone (ehci.state.ram.read32 (qtd + 8)) 8) =
        state.ram.write32 (qtd + 8) (tokenDone (ehci.state.ram.read32 (qtd + 8)) 8) :=
      if_pos (Mapping.backed_inside backed (by decide : 8 + 4 ≤ 32))
    refine ⟨inOrder, ?_, ?_⟩
    · refine Eq.trans ?_ records.symm
      rw [Ehci.complete, List.filterMap_append, List.filter_cons_of_pos fits, ← delivered]
      rfl
    · intro xfer member found delivers
      rcases List.mem_append.mp member with earlier | new
      · exact completes xfer earlier found delivers
      · rw [List.mem_singleton.mp new] at delivers ⊢
        cases delivers
        refine ⟨active, ?_, _, token⟩
        dsimp only
        rw [token, FlatMemory.read32_write32]
        exact tokenActive_done ..
  · intro lost
    refine ⟨inOrder, ?_, completes⟩
    rw [records, List.filter_cons_of_neg (by simp [lost]), List.filter_nil, List.append_nil]
    exact delivered

theorem Accounted.usbRunQtd (accounted : Accounted mapped queued ehci) (endpoint qtd : Word)
    (isControl isIntr : Bool) :
    Accounted mapped queued (ehci.usbRunQtd mapped endpoint qtd isControl isIntr).2 := by
  unfold Ehci.usbRunQtd
  split
  · exact accounted
  · rename_i q words
    obtain ⟨backed, rfl⟩ := readWords_eq_some words
    dsimp only
    split
    · exact accounted
    · rename_i active
      split
      · exact accounted.complete ..
      · split
        · split
          · exact accounted
          · rename_i report rest reports
            split
            · exact accounted
            · obtain ⟨delivers, loses⟩ := accounted.take endpoint reports backed (by simpa using active)
              split
              · rename_i fits
                exact delivers fits
              · rename_i fits
                exact loses (Bool.eq_false_iff.mpr fits)
        · exact accounted.complete ..

theorem Accounted.chain {visit : Ehci → Word → Bool × Ehci}
    (visits : ∀ ehci cur, Accounted mapped queued ehci → Accounted mapped queued (visit ehci cur).2)
    {turns : Nat} {cur : Word} {found : Bool × Ehci} (accounted : Accounted mapped queued found.2) :
    Accounted mapped queued (Ehci.chain mapped visit turns cur found).2 := by
  induction turns generalizing cur found with
  | zero => exact accounted
  | succ turns ih =>
    unfold Ehci.chain
    split
    · exact accounted
    · have visited := visits found.2 cur accounted
      dsimp only
      split
      · exact visited
      · split
        · exact visited
        · exact ih visited

theorem Accounted.usbRunOverlay (accounted : Accounted mapped queued ehci)
    (endpoint head curQtd : Word) (isControl isIntr : Bool) :
    Accounted mapped queued (ehci.usbRunOverlay mapped endpoint head curQtd isControl isIntr).2 := by
  have ran := accounted.usbRunQtd endpoint (head + 0x10) isControl isIntr
  unfold Ehci.usbRunOverlay
  dsimp only
  split
  · split
    · exact ran.setRam _
    · exact ran
  · exact ran

theorem Accounted.engineHead {found : Bool × Ehci} (accounted : Accounted mapped queued found.2)
    (head : Word) (w : Nat → Word) :
    Accounted mapped queued (Ehci.engineHead mapped head w found).2 := by
  unfold Ehci.engineHead
  dsimp only
  refine .chain (fun _ cur visited => visited.usbRunQtd _ cur _ _) ?_
  exact .chain (fun _ cur visited => visited.usbRunQtd _ cur _ _) (accounted.usbRunOverlay ..)

theorem Accounted.engineTurns {list head : Word} {turns : Nat} {found : Bool × Ehci}
    (accounted : Accounted mapped queued found.2) :
    Accounted mapped queued (Ehci.engineHeads mapped list turns head found).2 := by
  induction turns generalizing head found with
  | zero => exact accounted
  | succ turns ih =>
    unfold Ehci.engineHeads
    split
    · exact accounted
    · split
      · exact accounted
      · rename_i w _
        dsimp only
        split
        · exact accounted.engineHead head w
        · exact ih (accounted.engineHead head w)

theorem Accounted.usbEngineRun (accounted : Accounted mapped queued ehci) :
    Accounted mapped queued (ehci.usbEngineRun mapped) := by
  unfold Ehci.usbEngineRun
  dsimp only
  split
  · exact accounted
  · have ran : Accounted mapped queued (Ehci.engineHeads mapped (ehci.regs.asyncListAddr &&& ~~~0x1f#32)
        32 (ehci.regs.asyncListAddr &&& ~~~0x1f#32) (false, ehci)).2 := accounted.engineTurns
    split
    · exact ran.usbRaiseIrq
    · exact ran

theorem Accounted.periodicVisit (accounted : Accounted mapped queued ehci) (endpoint head cur : Word) :
    Accounted mapped queued (Ehci.periodicVisit mapped endpoint head ehci cur).2 := by
  have ran := accounted.usbRunQtd endpoint cur false true
  unfold Ehci.periodicVisit
  dsimp only
  split
  · refine Accounted.usbRaiseIrq ?_
    split
    · exact ran.setRam _
    · exact ran
  · exact ran

theorem Accounted.periodicHead (accounted : Accounted mapped queued ehci) (head : Word) (w : Nat → Word) :
    Accounted mapped queued (ehci.periodicHead mapped head w) := by
  unfold Ehci.periodicHead
  dsimp only
  refine .chain (fun _ cur visited => visited.periodicVisit _ _ cur) ?_
  refine .chain (fun _ cur visited => visited.periodicVisit _ _ cur) ?_
  have ran := accounted.usbRunOverlay ((w 1 >>> 8) &&& 0xf) head (w 3 &&& ~~~0x1f#32) false true
  dsimp only
  split
  · exact ran.usbRaiseIrq
  · exact ran

theorem Accounted.periodicHeads {turns : Nat} {entry : Word} (accounted : Accounted mapped queued ehci) :
    Accounted mapped queued (Ehci.periodicHeads mapped turns entry ehci) := by
  induction turns generalizing entry ehci with
  | zero => exact accounted
  | succ turns ih =>
    unfold Ehci.periodicHeads
    split
    · exact accounted
    · dsimp only
      split
      · exact accounted
      · exact ih (accounted.periodicHead ..)

theorem Accounted.usbPeriodicRun (accounted : Accounted mapped queued ehci) :
    Accounted mapped queued (ehci.usbPeriodicRun mapped) := by
  unfold Ehci.usbPeriodicRun
  dsimp only
  split
  · exact accounted.of_same rfl rfl rfl
  · split
    · exact Accounted.periodicHeads (accounted.of_same rfl rfl rfl)
    · exact accounted.of_same rfl rfl rfl

/-- What happens, in any order: keys, what the guest does to memory and to the controller's
registers, and the two schedules. -/
inductive HidEvent where
  | queueKey (usage mods : Byte)
  | guestMemory (ram : FlatMemory)
  | guestRegs (regs : UsbRegs)
  | periodicRun
  | engineRun

def Ehci.step (mapped : Mapping) (ehci : Ehci) : HidEvent → Ehci
  | .queueKey usage mods => ehci.hidQueueKey usage mods
  | .guestMemory ram => ehci.setRam ram
  | .guestRegs regs => { ehci with regs }
  | .periodicRun => ehci.usbPeriodicRun mapped
  | .engineRun => ehci.usbEngineRun mapped

def Ehci.run (mapped : Mapping) (ehci : Ehci) (events : List HidEvent) : Ehci :=
  events.foldl (Ehci.step mapped) ehci

/-- No report queued and nothing executed. -/
def Ehci.reset (state : UsbState) (regs : UsbRegs) (lines : VicLines) : Ehci where
  state := state
  regs := regs
  lines := lines
  usbFrame := 0
  frame := 0
  hidReports := []
  irqRaised := 0
  hidTaken := []
  usbXfers := []

/-- The reports an event queues. -/
def HidEvent.queues : HidEvent → List HidReport
  | .queueKey usage mods => if usage = 0 then [] else keyReports usage mods
  | .guestMemory _ | .guestRegs _ | .periodicRun | .engineRun => []

theorem Accounted.step (accounted : Accounted mapped queued ehci) (event : HidEvent) :
    Accounted mapped (queued ++ event.queues) (ehci.step mapped event) := by
  cases event with
  | queueKey usage mods =>
    unfold Ehci.step Ehci.hidQueueKey HidEvent.queues
    dsimp only
    split
    · rwa [List.append_nil]
    · obtain ⟨order, delivered, completes⟩ := accounted
      refine ⟨?_, delivered, completes⟩
      rw [← order, List.append_assoc]
  | guestMemory ram =>
    rw [HidEvent.queues, List.append_nil]
    exact accounted.setRam ram
  | guestRegs regs =>
    rw [HidEvent.queues, List.append_nil]
    exact accounted.of_same rfl rfl rfl
  | periodicRun =>
    rw [HidEvent.queues, List.append_nil]
    exact accounted.usbPeriodicRun
  | engineRun =>
    rw [HidEvent.queues, List.append_nil]
    exact accounted.usbEngineRun

theorem Accounted.run (accounted : Accounted mapped queued ehci) (events : List HidEvent) :
    Accounted mapped (queued ++ events.flatMap HidEvent.queues) (ehci.run mapped events) := by
  induction events generalizing queued ehci with
  | nil => rwa [List.flatMap_nil, List.append_nil]
  | cons event rest ih =>
    rw [List.flatMap_cons, ← List.append_assoc]
    exact ih (accounted.step event)

theorem reset_accounted (mapped : Mapping) (state : UsbState) (regs : UsbRegs) (lines : VicLines) :
    Accounted mapped [] (Ehci.reset state regs lines) := by
  refine ⟨rfl, rfl, ?_⟩
  intro xfer member
  cases member

/-- Delivered and waiting reports are those queued, in order; each one delivered went to
endpoint 1 and completed the qTD it went to. -/
structure ExactlyOnce (queued : List HidReport) (ehci : Ehci) : Prop where
  order : ehci.usbXfers.filterMap Xfer.report ++ ehci.hidReports = queued
  each : ∀ xfer ∈ ehci.usbXfers, ∀ report, xfer.report = some report →
    xfer.endpoint = 1 ∧ Completes xfer report

theorem Accounted.deliveries (accounted : Accounted mapped queued ehci) :
    ehci.usbXfers.filterMap Xfer.report =
      (ehci.hidTaken.filter (HidCall.fits mapped)).map HidCall.report := by
  rw [← accounted.delivered, List.map_filterMap]
  congr 1
  funext xfer
  cases reported : xfer.report with
  | none => simp [Xfer.delivery, reported]
  | some report => simp [Xfer.delivery, reported]

theorem Accounted.endpoint (accounted : Accounted mapped queued ehci) (once : ExactlyOnce queued ehci)
    {call : HidCall} (taken : call ∈ ehci.hidTaken) (fits : call.fits mapped = true) :
    call.endpoint = 1 := by
  have delivered : call ∈ ehci.usbXfers.filterMap Xfer.delivery := by
    rw [accounted.delivered]
    exact List.mem_filter.mpr ⟨taken, fits⟩
  obtain ⟨xfer, member, delivery⟩ := List.mem_filterMap.mp delivered
  obtain ⟨report, reported, rfl⟩ := Option.map_eq_some_iff.mp delivery
  exact (once.each xfer member report reported).1

theorem Accounted.exactlyOnce_iff (accounted : Accounted mapped queued ehci) :
    ExactlyOnce queued ehci ↔
      ∀ call ∈ ehci.hidTaken, call.fits mapped = true ∧ call.endpoint = 1 := by
  constructor
  · intro once
    have order := once.order
    rw [accounted.deliveries, ← accounted.order] at order
    have lengths := congrArg List.length (List.append_cancel_right order)
    rw [List.length_map, List.length_map] at lengths
    intro call taken
    have fits := List.length_filter_eq_length_iff.mp lengths call taken
    exact ⟨fits, accounted.endpoint once taken fits⟩
  · intro good
    have kept : ehci.hidTaken.filter (HidCall.fits mapped) = ehci.hidTaken :=
      List.filter_eq_self.mpr fun call taken => (good call taken).1
    constructor
    · rw [accounted.deliveries, kept, accounted.order]
    · intro xfer member report reported
      refine ⟨?_, accounted.completes xfer member report reported⟩
      have delivered : (⟨xfer.endpoint, xfer.qtd, report, xfer.before.ram⟩ : HidCall) ∈
          ehci.usbXfers.filterMap Xfer.delivery :=
        List.mem_filterMap.mpr ⟨xfer, member, by simp [Xfer.delivery, reported]⟩
      rw [accounted.delivered, kept] at delivered
      exact (good _ delivered).2

/-- Reports reach the guest exactly once and in order, in every state of a run, just when every
call that takes one can write its buffer and is for endpoint 1. -/
theorem reports_exactly_once_iff (mapped : Mapping) (state : UsbState) (regs : UsbRegs)
    (lines : VicLines) (events : List HidEvent) :
    let ehci := (Ehci.reset state regs lines).run mapped events
    ExactlyOnce (events.flatMap HidEvent.queues) ehci ↔
      ∀ call ∈ ehci.hidTaken, call.fits mapped = true ∧ call.endpoint = 1 := by
  intro ehci
  have accounted := (reset_accounted mapped state regs lines).run events
  rw [List.nil_append] at accounted
  exact accounted.exactlyOnce_iff

/-- A frame list at 0x10001000 whose second entry is the queue head at 0x10002000, for
endpoint 1, with an Active IN overlay of 8 bytes and a buffer at 0x90000000. -/
def lostSchedule : FlatMemory :=
  (FlatMemory.writeWords (fun _ => 0) 0x10002000
    [1, 0x100, 0, 0, 1, 1, 0x80180, 0x90000000, 0, 0, 0, 0]).write32 0x10001004 0x10002002

/-- A report taken for a buffer that cannot be written is gone. -/
theorem report_lost :
    ¬ExactlyOnce [#v[0, 0, 4, 0, 0, 0, 0, 0], #v[0, 0, 0, 0, 0, 0, 0, 0]]
      ((Ehci.reset ⟨lostSchedule, ⟨0, 0, 0, 0, 0⟩, false, 0, false⟩ ⟨0x10, 0, 0, 0x10001000, 0⟩
        ⟨0, 0, 0, 0⟩).run (· < 0x20000) [.queueKey 4 0, .periodicRun]) := by
  intro once
  have lost := congrArg List.length once.order
  revert lost
  decide +kernel

end ZeeboLle.Linux
