import ZeeboLle.Device.Vic

/-! Guest accesses to the interrupt controller and the timer. The bases and the timer's
register layout are members of the decoder; the two layouts in use are the reference one
and the one resolved from the firmware. -/
namespace ZeeboLle.Device

open Unicorn

namespace VicState

def enableMask (vic : VicState) (mask : Word) : VicState := { vic with enable := vic.enable ||| mask }

def disableMask (vic : VicState) (mask : Word) : VicState :=
  { vic with enable := vic.enable &&& ~~~mask }

/-- The handler's acknowledgement; it leaves the line last taken in place. -/
def ackMask (vic : VicState) (mask : Word) : VicState :=
  { vic with pending := vic.pending &&& ~~~mask, inService := vic.inService &&& ~~~mask }

def maskedPending (vic : VicState) : Word := vic.pending &&& vic.enable

/-- A line enters service. -/
def take (vic : VicState) (line : Nat) : VicState :=
  { vic with inService := vic.inService ||| (1#32 <<< line), inServiceLine := some line }

/-- Reading the vector takes the line into service; all ones when there is none. -/
def vectorAndAck (vic : VicState) : Word × VicState :=
  match vic.deliverableLine with
  | none => (~~~0#32, vic)
  | some line => (BitVec.ofNat 32 line, vic.take line)

/-- The end of interrupt retires the line last taken, whatever happened to it since. -/
def eoiCurrent (vic : VicState) : VicState :=
  match vic.inServiceLine with
  | none => vic
  | some line =>
    { vic with
      inService := vic.inService &&& ~~~(1#32 <<< line)
      pending := vic.pending &&& ~~~(1#32 <<< line)
      inServiceLine := none }

end VicState

namespace GptTimer

def setMatch (timer : GptTimer) (value : Word) : GptTimer :=
  { timer with matchVal := value, matchArmed := true }

def clear (timer : GptTimer) : GptTimer := { timer with count := 0, matchArmed := true }

/-- Bit 0 enables the counter, bit 1 clears it on a match. -/
def writeEnable (timer : GptTimer) (value : Word) : GptTimer :=
  { timer with clrOnMatch := value.getLsbD 1, enabled := value.getLsbD 0 }

end GptTimer

/-- Where a decoder finds its registers. The controller's window does not wrap around. -/
structure BusLayout where
  vicBase : Word
  gptBase : Word
  gptWindow : Word
  gptMatchOff : Word
  gptCountOff : Word
  gptEnableOff : Word
  gptClearOff : Word
  gptLine : Nat
  vicFits : vicBase.toNat + 0x1000 < 2 ^ 32

namespace BusLayout

def reference : BusLayout where
  vicBase := 0xc0000000
  gptBase := 0xc0100000
  gptWindow := 0x100
  gptMatchOff := 0x0
  gptCountOff := 0x4
  gptEnableOff := 0x8
  gptClearOff := 0xc
  gptLine := gptVicLine
  vicFits := by decide

def firmware : BusLayout where
  vicBase := 0xc0000000
  gptBase := 0xc5000000
  gptWindow := 0x200
  gptMatchOff := 0x100
  gptCountOff := 0x108
  gptEnableOff := 0x104
  gptClearOff := 0x10c
  gptLine := gptVicLine
  vicFits := by decide

def intClear0 : Word := 0x18
def irqVecRd : Word := 0xf00

/-- The register of the controller an address names. -/
def vicOffset (layout : BusLayout) (addr : Word) : Option Word :=
  if layout.vicBase ≤ addr ∧ addr < layout.vicBase + 0x1000 then some (addr - layout.vicBase)
  else none

def gptOffset (layout : BusLayout) (addr : Word) : Option Word :=
  if layout.gptBase ≤ addr ∧ addr < layout.gptBase + layout.gptWindow then
    some (addr - layout.gptBase)
  else none

end BusLayout

namespace VicState

def writeReg (vic : VicState) (offset value : Word) : VicState :=
  if offset = BusLayout.intClear0 then vic.ackMask value
  else if offset = 0x28 then vic.enableMask value
  else if offset = 0x40 then vic.disableMask value
  else if offset = BusLayout.irqVecRd then vic.eoiCurrent
  else vic

def readReg (vic : VicState) (offset : Word) : Word × VicState :=
  if offset = 0x0 then (vic.maskedPending, vic)
  else if offset = 0x10 then (vic.pending, vic)
  else if offset = BusLayout.irqVecRd then vic.vectorAndAck
  else (0, vic)

end VicState

namespace GptTimer

def writeReg (layout : BusLayout) (timer : GptTimer) (offset value : Word) : GptTimer :=
  if offset = layout.gptMatchOff then timer.setMatch value
  else if offset = layout.gptEnableOff then timer.writeEnable value
  else if offset = layout.gptClearOff then timer.clear
  else timer

/-- Reading does not advance the counter. -/
def readReg (layout : BusLayout) (timer : GptTimer) (offset : Word) : Word :=
  if offset = layout.gptCountOff then timer.count
  else if offset = layout.gptMatchOff then timer.matchVal
  else if offset = layout.gptEnableOff then if timer.enabled then 1 else 0
  else 0

end GptTimer

namespace PeripheralBus

/-- Whether the address belongs to a modelled device, and the devices afterwards. -/
def mmioWrite (layout : BusLayout) (pbus : PeripheralBus) (addr value : Word) :
    Bool × PeripheralBus :=
  match layout.vicOffset addr with
  | some offset => (true, { pbus with vic := pbus.vic.writeReg offset value })
  | none =>
    match layout.gptOffset addr with
    | some offset => (true, { pbus with gpt := pbus.gpt.writeReg layout offset value })
    | none => (false, pbus)

def mmioRead (layout : BusLayout) (pbus : PeripheralBus) (addr : Word) :
    Option Word × PeripheralBus :=
  match layout.vicOffset addr with
  | some offset =>
    let (value, vic) := pbus.vic.readReg offset
    (some value, { pbus with vic })
  | none =>
    match layout.gptOffset addr with
    | some offset => (some (pbus.gpt.readReg layout offset), pbus)
    | none => (none, pbus)

def tick (layout : BusLayout) (pbus : PeripheralBus) (vticks : Word) : Bool × PeripheralBus :=
  match pbus.gpt.advance vticks with
  | (true, gpt) => (true, ⟨pbus.vic.raiseLine layout.gptLine, gpt⟩)
  | (false, gpt) => (false, { pbus with gpt })

end PeripheralBus

/-- What happens to the devices: a device raises a line, virtual time passes, the guest
accesses a register, or an interrupt is delivered into an engine. -/
inductive BusEvent where
  | raiseLine (line : Nat)
  | tick (vticks : Word)
  | write (addr value : Word)
  | read (addr : Word)
  | deliverIrq (regs : RegFile) (vectorBase : Word)

namespace PeripheralBus

def step (layout : BusLayout) (pbus : PeripheralBus) : BusEvent → PeripheralBus
  | .raiseLine line => { pbus with vic := pbus.vic.raiseLine line }
  | .tick vticks => (pbus.tick layout vticks).2
  | .write addr value => (pbus.mmioWrite layout addr value).2
  | .read addr => (pbus.mmioRead layout addr).2
  | .deliverIrq regs vectorBase =>
    { pbus with vic := (vicDeliverNext regs pbus.vic vectorBase).2.2 }

/-- A bus since its construction. -/
def run (layout : BusLayout) (events : List BusEvent) : PeripheralBus :=
  events.foldl (step layout) idle

/-- The line an event takes into service: the vector is read, or an exception is taken. -/
def taken (layout : BusLayout) (pbus : PeripheralBus) : BusEvent → Option Nat
  | .read addr =>
    if layout.vicOffset addr = some BusLayout.irqVecRd then pbus.vic.deliverableLine else none
  | .deliverIrq regs _ =>
    if regs.cpsr &&& cpsrIBit = 0 then pbus.vic.deliverableLine else none
  | _ => none

/-- The write that signals the end of interrupt. -/
def isEoi (layout : BusLayout) : BusEvent → Bool
  | .write addr _ => layout.vicOffset addr = some BusLayout.irqVecRd
  | _ => false

/-- The lines a write to INT_CLEAR0 names. -/
def clears (layout : BusLayout) : BusEvent → Word
  | .write addr value => if layout.vicOffset addr = some BusLayout.intClear0 then value else 0
  | _ => 0

end PeripheralBus

end ZeeboLle.Device
