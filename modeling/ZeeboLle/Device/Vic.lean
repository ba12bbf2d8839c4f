import ZeeboLle.Unicorn.RegFile

/-! The interrupt controller, the timer that drives one of its lines, and the delivery of
an IRQ exception into an engine between two slices. Guest register accesses to the two
devices are not part of this module. -/
namespace ZeeboLle.Device

open Unicorn

def cpsrModeMask : Word := 0x1f
def cpsrModeIrq : Word := 0x12
def cpsrIBit : Word := 0x80
def cpsrTBit : Word := 0x20

/-- Lines latched by devices, lines allowed to reach the core, and lines whose handler
has not signalled the end of interrupt. -/
structure VicState where
  pending : Word
  enable : Word
  inService : Word
  inServiceLine : Option Nat
deriving DecidableEq

namespace VicState

def idle : VicState := ⟨0, 0, 0, none⟩

def raiseLine (vic : VicState) (line : Nat) : VicState :=
  if line < 32 then { vic with pending := vic.pending ||| (1#32 <<< line) } else vic

def irqAsserted (vic : VicState) : Bool := vic.pending &&& vic.enable != 0

/-- The lowest asserted and enabled line that is not in service. -/
def deliverableLine (vic : VicState) : Option Nat :=
  (List.range 32).find? fun line => ((vic.pending &&& vic.enable) &&& ~~~vic.inService).getLsbD line

end VicState

structure GptTimer where
  count : Word
  matchVal : Word
  enabled : Bool
  matchArmed : Bool
  clrOnMatch : Bool
deriving DecidableEq

namespace GptTimer

def idle : GptTimer := ⟨0, 0, false, true, false⟩

/-- The compare value lies in `(before, after]`, which may wrap around. -/
def crossed (before after matchVal : Word) : Bool :=
  if after ≥ before then matchVal > before && matchVal ≤ after
  else matchVal > before || matchVal ≤ after

/-- Whether the compare fired, and the timer after the ticks. -/
def advance (timer : GptTimer) (ticks : Word) : Bool × GptTimer :=
  if timer.enabled = false ∨ ticks = 0 then (false, timer)
  else
    let count := timer.count + ticks
    if timer.matchArmed && crossed timer.count count timer.matchVal then
      (true, { timer with count := if timer.clrOnMatch then 0 else count, matchArmed := false })
    else (false, { timer with count })

end GptTimer

/-- The line of the timer. -/
def gptVicLine : Nat := 8

structure PeripheralBus where
  vic : VicState
  gpt : GptTimer
deriving DecidableEq

namespace PeripheralBus

def idle : PeripheralBus := ⟨VicState.idle, GptTimer.idle⟩

/-- One scheduler slice of virtual time; a crossing latches the timer's line. -/
def tickSlice (pbus : PeripheralBus) : Bool × PeripheralBus :=
  match pbus.gpt.advance 4096 with
  | (true, gpt) => (true, ⟨pbus.vic.raiseLine gptVicLine, gpt⟩)
  | (false, gpt) => (false, { pbus with gpt })

end PeripheralBus

/-- IRQ entry: the mode is switched first, so LR and SPSR are the banked ones. -/
def takeIrq (regs : RegFile) (vectorBase : Word) : RegFile :=
  let lrIrq := regs.readPc + 4
  let spsrIrq := regs.cpsr
  let newCpsr := (regs.cpsr &&& ~~~(cpsrModeMask ||| cpsrTBit)) ||| cpsrModeIrq ||| cpsrIBit
  let regs := regs.writeCpsr newCpsr
  let regs := regs.writeLr lrIrq
  let regs := regs.writeSpsr spsrIrq
  regs.writePc (vectorBase + 0x18)

/-- `vic_deliver_irq`: any asserted line, unless the core masks interrupts. -/
def vicDeliverIrq (regs : RegFile) (vic : VicState) (vectorBase : Word) : Bool × RegFile :=
  if vic.irqAsserted = false then (false, regs)
  else if regs.cpsr &&& cpsrIBit ≠ 0 then (false, regs)
  else (true, takeIrq regs vectorBase)

/-- `vic_deliver_next`: only a line not in service, which is then taken into service. -/
def vicDeliverNext (regs : RegFile) (vic : VicState) (vectorBase : Word) :
    Bool × RegFile × VicState :=
  match vic.deliverableLine with
  | none => (false, regs, vic)
  | some line =>
    if regs.cpsr &&& cpsrIBit ≠ 0 then (false, regs, vic)
    else
      (true, takeIrq regs vectorBase,
        { vic with inService := vic.inService ||| (1#32 <<< line), inServiceLine := some line })

/-- The banked return state names the interrupted instruction and its CPSR. -/
theorem takeIrq_banked (regs : RegFile) (vectorBase : Word) :
    (takeIrq regs vectorBase).spsr .irq = regs.cpsr ∧
      (takeIrq regs vectorBase).lr .irq = regs.readPc + 4 := by
  have mode : ((regs.cpsr &&& ~~~(cpsrModeMask ||| cpsrTBit)) ||| cpsrModeIrq ||| cpsrIBit) &&&
      0x1f#32 = 0x12#32 := by
    unfold cpsrModeMask cpsrTBit cpsrModeIrq cpsrIBit
    ext index bound
    interval_cases index <;> simp
  have bank : bankOf ((regs.cpsr &&& ~~~(cpsrModeMask ||| cpsrTBit)) ||| cpsrModeIrq ||| cpsrIBit) =
      .irq := by
    rw [bankOf, mode]
    rfl
  constructor
  · simp [takeIrq, RegFile.writePc, RegFile.writeSpsr, RegFile.writeLr, RegFile.writeCpsr, bank]
  · simp [takeIrq, RegFile.writePc, RegFile.writeSpsr, RegFile.writeLr, RegFile.writeCpsr, bank]

/-- Delivery either leaves the registers alone or enters the exception. -/
theorem vicDeliverIrq_regs (regs : RegFile) (vic : VicState) (vectorBase : Word) :
    (vicDeliverIrq regs vic vectorBase).2 =
      if (vicDeliverIrq regs vic vectorBase).1 then takeIrq regs vectorBase else regs := by
  unfold vicDeliverIrq
  split
  · rfl
  · split
    · rfl
    · rfl

theorem vicDeliverNext_regs (regs : RegFile) (vic : VicState) (vectorBase : Word) :
    (vicDeliverNext regs vic vectorBase).2.1 =
      if (vicDeliverNext regs vic vectorBase).1 then takeIrq regs vectorBase else regs := by
  unfold vicDeliverNext
  split
  · rfl
  · split
    · rfl
    · rfl

end ZeeboLle.Device
