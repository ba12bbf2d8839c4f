import ZeeboLle.Linux.EhciTransfers
import ZeeboLle.Linux.EhciReports

/-! Control transfers in rounds: the guest lays some out in memory, and the controller runs once
or more often. -/
namespace ZeeboLle.Linux

open Unicorn Paging

/-- What the guest lays out, and how often the controller runs after the first time. -/
structure UsbRound where
  ram : FlatMemory
  regs : UsbRegs
  schedule : Schedule
  transfers : List Transfer
  again : Nat

/-- The schedule is in memory with its packets, and its Active stages are those of the transfers,
in order. -/
@[mk_iff]
structure UsbRound.LaidOut (mapped : Mapping) (round : UsbRound) : Prop where
  schedule : round.schedule.InRam mapped round.regs round.ram
    (round.transfers.flatMap Transfer.packetCells)
  order : round.schedule.order = round.transfers.flatMap Transfer.stages
  transfers : ∀ transfer ∈ round.transfers, transfer.InRam mapped round.ram

instance (mapped : Mapping) (round : UsbRound) : Decidable (round.LaidOut mapped) :=
  decidable_of_iff' _ (UsbRound.laidOut_iff ..)

def Ehci.layOut (ehci : Ehci) (round : UsbRound) : Ehci :=
  { ehci with state := { ehci.state with ram := round.ram }, regs := round.regs }

def Ehci.play (mapped : Mapping) (ehci : Ehci) (round : UsbRound) : Ehci :=
  (Ehci.usbEngineRun mapped)^[round.again + 1] (ehci.layOut round)

/-- In each round all transfers took effect, and nothing else was executed. -/
inductive Plays : List UsbRound → UsbState → List Xfer → UsbState → Prop where
  | nil {state : UsbState} : Plays [] state [] state
  | cons {round : UsbRound} {rounds : List UsbRound} {before middle after : UsbState} {xfers others : List Xfer}
      (performs : PerformsAll round.transfers { before with ram := round.ram } xfers middle)
      (rest : Plays rounds middle others after) : Plays (round :: rounds) before (xfers ++ others) after

variable {mapped : Mapping}

theorem Plays.settings {rounds : List UsbRound} {before after : UsbState} {xfers : List Xfer}
    (plays : Plays rounds before xfers after) :
    after.settings = (rounds.flatMap UsbRound.transfers).foldl
      (fun settings transfer => transfer.packet.sets settings) before.settings := by
  induction plays with
  | nil => rfl
  | cons performs rest ih =>
    rw [ih, performs.settings, List.flatMap_cons, List.foldl_append]
    rfl

theorem Honours.append {settings : Settings} {first second : List Transfer}
    (honours : Honours settings (first ++ second)) :
    Honours settings first ∧
      Honours (first.foldl (fun settings transfer => transfer.packet.sets settings) settings) second := by
  induction first generalizing settings with
  | nil => exact ⟨trivial, honours⟩
  | cons transfer rest ih =>
    obtain ⟨here, later⟩ := honours
    obtain ⟨before, after⟩ := ih later
    exact ⟨⟨here, before⟩, after⟩

theorem mem_advance {visits done : List Stage} {stage : Stage} (member : stage ∈ visits.foldl advance done) :
    stage ∈ done ∨ stage ∈ visits ∧ stage.active = true := by
  induction visits generalizing done with
  | nil => exact .inl member
  | cons first rest ih =>
    rcases ih member with earlier | ⟨later, active⟩
    · unfold advance at earlier
      split at earlier
      · exact .inl earlier
      · rename_i fresh
        rcases List.mem_append.mp earlier with before | new
        · exact .inl before
        · rw [List.mem_singleton.mp new]
          exact .inr ⟨List.mem_cons_self .., Bool.not_eq_false _ ▸ (not_or.mp fresh).2⟩
    · exact .inr ⟨List.mem_cons_of_mem _ later, active⟩

theorem mem_order {schedule : Schedule} {stage : Stage} (member : stage ∈ schedule.order) :
    stage ∈ schedule.visits ∧ stage.active = true :=
  (mem_advance member).resolve_left (List.not_mem_nil)

/-- A round in which all transfers are honoured. -/
theorem PerformsAll.play (unmapped : mapped 0#20 = false) {round : UsbRound} (laidOut : round.LaidOut mapped)
    (walked : round.schedule.Walked round.ram) {ehci : Ehci}
    (honours : Honours ehci.state.settings round.transfers) :
    ∃ xfers, (ehci.play mapped round).usbXfers = ehci.usbXfers ++ xfers ∧
      PerformsAll round.transfers { ehci.state with ram := round.ram } xfers (ehci.play mapped round).state := by
  have progress : Progress mapped (ehci.layOut round) _ _ _ (ehci.play mapped round) :=
    Progress.runs unmapped laidOut.schedule walked round.again
  have within (stage : Stage) (member : stage ∈ round.transfers.flatMap Transfer.stages) :
      stage ∈ round.schedule.visits ∧ stage.active = true := by
    rw [← laidOut.order] at member
    exact mem_order member
  have performs : PerformsAll round.transfers (ehci.layOut round).state _ _ :=
    PerformsAll.of_honoured unmapped laidOut.schedule.staged within laidOut.transfers
      (List.subset_append_right _ _) (fun _ _ => rfl) honours
  have xfers := progress.xfers
  have state := progress.state
  rw [laidOut.order, executeAll_xfers] at xfers
  rw [laidOut.order, executeAll_state] at state
  rw [state]
  exact ⟨_, xfers, performs⟩

/-- Control transfers take effect, round after round. -/
theorem control_transfers_take_effect (unmapped : mapped 0#20 = false) (start : Ehci) (rounds : List UsbRound)
    (laidOut : ∀ round ∈ rounds, round.LaidOut mapped)
    (walked : ∀ round ∈ rounds, round.schedule.Walked round.ram)
    (honours : Honours start.state.settings (rounds.flatMap UsbRound.transfers)) :
    ∃ xfers, (rounds.foldl (Ehci.play mapped) start).usbXfers = start.usbXfers ++ xfers ∧
      Plays rounds start.state xfers (rounds.foldl (Ehci.play mapped) start).state := by
  induction rounds generalizing start with
  | nil => exact ⟨[], (List.append_nil _).symm, .nil⟩
  | cons round rest ih =>
    rw [List.flatMap_cons] at honours
    obtain ⟨here, later⟩ := honours.append
    obtain ⟨xfers, record, performs⟩ := PerformsAll.play unmapped (laidOut round (List.mem_cons_self ..))
      (walked round (List.mem_cons_self ..)) here
    have settings : (start.play mapped round).state.settings =
        round.transfers.foldl (fun settings transfer => transfer.packet.sets settings) start.state.settings :=
      performs.settings
    rw [← settings] at later
    obtain ⟨others, recordLater, plays⟩ := ih (start.play mapped round)
      (fun other member => laidOut other (List.mem_cons_of_mem _ member))
      (fun other member => walked other (List.mem_cons_of_mem _ member)) later
    refine ⟨xfers ++ others, ?_, .cons performs plays⟩
    rw [List.foldl_cons, recordLater, record, List.append_assoc]

/-- Guest RAM with a queue head at 0x10002000 that links to itself, qTDs in a row from its current one
at 0x10003000 on, and a packet at 0x10004000. -/
def controlRam (qtds packet : List Word) : FlatMemory :=
  ((FlatMemory.writeWords (fun _ => 0) 0x10002000 [0x10002002, 0, 0, 0x10003000, 1, 1]).writeWords
    0x10003000 qtds).writeWords 0x10004000 packet

def controlRound (transfer : Transfer) (qtds packet : List Word) : UsbRound where
  ram := controlRam qtds packet
  regs := ⟨0x20, 0, 1, 0, 0x10002000⟩
  schedule := ⟨⟨0x10002000, transfer.stages, []⟩, []⟩
  transfers := [transfer]
  again := 1

/-- GET_DESCRIPTOR for the 18 bytes of the device descriptor, into two pages. -/
def deviceRound : UsbRound :=
  controlRound
    { setup := ⟨0x10003000, 0x80280, [0x10004000, 0, 0, 0, 0]⟩
      packet := ⟨0x80, 6, 0x100, 0, 18⟩
      data := [⟨0x10003020, 0x120180, [0x10005ff8, 0x10007000, 0, 0, 0]⟩]
      status := ⟨0x10003040, 0x80, [0, 0, 0, 0, 0]⟩ }
    [0x10003020, 1, 0x80280, 0x10004000, 0, 0, 0, 0, 0x10003040, 1, 0x120180, 0x10005ff8, 0x10007000, 0,
      0, 0, 1, 1, 0x80] [0x1000680, 0x120000]

/-- SET_ADDRESS to 7, with an IN status stage. -/
def addressRound : UsbRound :=
  controlRound
    { setup := ⟨0x10003000, 0x80280, [0x10004000, 0, 0, 0, 0]⟩
      packet := ⟨0, 5, 7, 0, 0⟩
      data := []
      status := ⟨0x10003020, 0x180, [0, 0, 0, 0, 0]⟩ }
    [0x10003020, 1, 0x80280, 0x10004000, 0, 0, 0, 0, 1, 1, 0x180] [0x70500, 0]

/-- 96 MiB of guest RAM. -/
def appsRam : Mapping := fun page => 0x10000#20 ≤ page && page < 0x16000#20

/-- The machine as it starts. -/
def usbStart : Ehci := Ehci.reset ⟨fun _ => 0, ⟨0, 0, 0, 0, 0⟩, false, 0, false⟩ ⟨0, 0, 0, 0, 0⟩ ⟨0, 0, 0, 0⟩

theorem device_descriptor_takes_effect :
    ∃ xfers, ([deviceRound].foldl (Ehci.play appsRam) usbStart).usbXfers = usbStart.usbXfers ++ xfers ∧
      Plays [deviceRound] usbStart.state xfers ([deviceRound].foldl (Ehci.play appsRam) usbStart).state :=
  control_transfers_take_effect (by decide) usbStart [deviceRound] (by decide +kernel) (by decide +kernel)
    (by decide +kernel)

/-- An address that a transfer without data asks for is not taken. -/
theorem address_lost :
    addressRound.LaidOut appsRam ∧ addressRound.schedule.Walked addressRound.ram ∧
      ¬∃ xfers, ([addressRound].foldl (Ehci.play appsRam) usbStart).usbXfers = usbStart.usbXfers ++ xfers ∧
        Plays [addressRound] usbStart.state xfers
          ([addressRound].foldl (Ehci.play appsRam) usbStart).state := by
  refine ⟨by decide +kernel, by decide +kernel, ?_⟩
  rintro ⟨xfers, -, plays⟩
  have lost : ([addressRound].foldl (Ehci.play appsRam) usbStart).state.settings ≠
      ([addressRound].flatMap UsbRound.transfers).foldl
        (fun settings transfer => transfer.packet.sets settings) usbStart.state.settings := by
    decide +kernel
  exact lost plays.settings

end ZeeboLle.Linux
