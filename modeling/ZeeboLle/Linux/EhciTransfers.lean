import ZeeboLle.Linux.EhciSchedule

/-! Control transfers as chapter 9 of USB 2.0 has them, and the stages they come in. -/
namespace ZeeboLle.Linux

open Unicorn Paging

/-- What requests set on a device. -/
structure Settings where
  address : Byte
  configured : Bool
deriving DecidableEq

def UsbState.settings (state : UsbState) : Settings := ⟨state.address, state.configured⟩

namespace UsbSetup

variable (packet : UsbSetup)

/-- SET_ADDRESS and SET_CONFIGURATION. -/
def sets (settings : Settings) : Settings :=
  if packet.bmReq = 0x00#8 ∧ packet.bReq = 0x05#8 then
    { settings with address := packet.wValue.extractLsb' 0 8 &&& 0x7f#8 }
  else if packet.bmReq = 0x00#8 ∧ packet.bReq = 0x09#8 then { settings with configured := packet.wValue ≠ 0 }
  else settings

/-- GET_DESCRIPTOR, of the device or of a part of it. -/
def GetsDescriptor : Prop := packet.bmReq &&& 0xe0#8 = 0x80#8 ∧ packet.bReq = 0x06#8

def GetsConfiguration : Prop := packet.bmReq = 0x80#8 ∧ packet.bReq = 0x08#8

instance : Decidable packet.GetsDescriptor := inferInstanceAs (Decidable (_ ∧ _))

instance : Decidable packet.GetsConfiguration := inferInstanceAs (Decidable (_ ∧ _))

/-- The packet in the buffer of a qTD. -/
def gather (ram : FlatMemory) (bufs : List Word) : UsbSetup where
  bmReq := ram (qtdCell bufs 0)
  bReq := ram (qtdCell bufs 1)
  wValue := ram (qtdCell bufs 3) ++ ram (qtdCell bufs 2)
  wIndex := ram (qtdCell bufs 5) ++ ram (qtdCell bufs 4)
  wLength := ram (qtdCell bufs 7) ++ ram (qtdCell bufs 6)

end UsbSetup

/-- Consecutive bytes, so many for each in turn. -/
def shares : List Byte → List Nat → List (List Byte)
  | _, [] => []
  | bytes, total :: rest => bytes.take total :: shares (bytes.drop total) rest

/-- A SETUP stage with its packet, IN stages with data, and a status stage. -/
structure Transfer where
  setup : Stage
  packet : UsbSetup
  data : List Stage
  status : Stage

namespace Transfer

variable (transfer : Transfer)

def stages : List Stage := transfer.setup :: transfer.data ++ [transfer.status]

def packetCells : List Word := qtdCells transfer.setup.bufs 0 8

/-- What the host is to receive in each IN stage, where the request says so. -/
def answers (settings : Settings) : Option (List (List Byte)) :=
  if transfer.packet.GetsDescriptor then
    some (shares (((Hidkbd.descriptor transfer.packet.wValue).getD []).take transfer.packet.wLength.toNat)
      (transfer.data.map Stage.total))
  else if transfer.packet.GetsConfiguration then
    some (transfer.data.map fun stage => [if settings.configured then 1 else 0].take stage.total)
  else none

/-- The stages are what they should be, and the packet is in memory. -/
@[mk_iff]
structure InRam (mapped : Mapping) (ram : FlatMemory) : Prop where
  setup : transfer.setup.pid = 2
  size : transfer.setup.total = 8
  fits : QtdFits mapped transfer.setup.bufs 8
  packet : .gather ram transfer.setup.bufs = transfer.packet
  data : ∀ stage ∈ transfer.data, stage.pid = 1
  status : transfer.status.pid = if transfer.data = [] then 1 else 0
  empty : transfer.status.total = 0

instance (mapped : Mapping) (ram : FlatMemory) : Decidable (transfer.InRam mapped ram) :=
  decidable_of_iff' _ (inRam_iff ..)

end Transfer

/-- A stage was executed: its buffer got some bytes, and its token says what it moved. -/
structure Ran (stage : Stage) (moved : Nat) (bytes : List Byte) (before after : UsbState) : Prop where
  active : tokenActive (after.ram.read32 (stage.addr + 8)) = false
  left : tokenTotal (after.ram.read32 (stage.addr + 8)) = stage.total - moved
  ram : ∀ cell, cell ∉ stage.statusCells → after.ram cell = scatter before.ram stage.bufs bytes cell

/-- IN stages were executed one after another, each with its bytes. -/
inductive Received : UsbState → List Stage → List (List Byte) → List Xfer → UsbState → Prop where
  | nil {state : UsbState} : Received state [] [] [] state
  | cons {before middle after : UsbState} {stage : Stage} {stages : List Stage} {bytes : List Byte}
      {answers : List (List Byte)} {xfers : List Xfer} (ran : Ran stage bytes.length bytes before middle)
      (rest : Received middle stages answers xfers after) :
      Received before (stage :: stages) (bytes :: answers) (⟨0, stage.addr, none, before, middle⟩ :: xfers) after

/-- A transfer took effect: the host got what it is to receive, and the device has been set. -/
inductive Performs (transfer : Transfer) : UsbState → List Xfer → UsbState → Prop where
  | intro {before first last after : UsbState} {answers : List (List Byte)} {xfers : List Xfer}
      (setup : Ran transfer.setup 8 [] before first)
      (data : Received first transfer.data answers xfers last)
      (status : Ran transfer.status 0 [] last after)
      (expected : ∀ given, transfer.answers before.settings = some given → answers = given)
      (settings : after.settings = transfer.packet.sets before.settings) :
      Performs transfer before (⟨0, transfer.setup.addr, none, before, first⟩ :: xfers ++
        [⟨0, transfer.status.addr, none, last, after⟩]) after

inductive PerformsAll : List Transfer → UsbState → List Xfer → UsbState → Prop where
  | nil {state : UsbState} : PerformsAll [] state [] state
  | cons {transfer : Transfer} {transfers : List Transfer} {before middle after : UsbState}
      {xfers others : List Xfer} (first : Performs transfer before xfers middle)
      (rest : PerformsAll transfers middle others after) :
      PerformsAll (transfer :: transfers) before (xfers ++ others) after

/-- What the keyboard can do with a transfer: its packet is in one piece; it is told nothing new
without data, and with data by a standard request; and a descriptor is asked for in one IN
stage, and no more of it than its length allows. -/
@[mk_iff]
structure Transfer.Honoured (transfer : Transfer) (settings : Settings) : Prop where
  piece : ∀ index < 8, qtdCell transfer.setup.bufs index =
    qtdBuf transfer.setup.bufs 0 + BitVec.ofNat 32 index
  noData : transfer.data = [] → transfer.packet.sets settings = settings
  standard : transfer.data ≠ [] → transfer.packet.bmReq = 0x00#8 ∨
    { transfer.packet with bmReq := 0x00#8 }.sets settings = settings
  descriptor : transfer.packet.GetsDescriptor →
    ∀ bytes ∈ Hidkbd.descriptor transfer.packet.wValue,
      (transfer.data.filter fun stage => stage.total ≠ 0).length ≤ 1 ∧
      ∀ stage ∈ transfer.data, min stage.total bytes.length ≤ transfer.packet.wLength.toNat

instance (transfer : Transfer) (settings : Settings) : Decidable (transfer.Honoured settings) :=
  decidable_of_iff' _ (Transfer.honoured_iff ..)

def Honours : Settings → List Transfer → Prop
  | _, [] => True
  | settings, transfer :: rest =>
    transfer.Honoured settings ∧ Honours (transfer.packet.sets settings) rest

instance Honours.decidable : (settings : Settings) → (transfers : List Transfer) →
    Decidable (Honours settings transfers)
  | _, [] => inferInstanceAs (Decidable True)
  | settings, transfer :: rest =>
    have := Honours.decidable (transfer.packet.sets settings) rest
    inferInstanceAs (Decidable (transfer.Honoured settings ∧ _))

/-- All shares together are what the stages have room for. -/
theorem flatten_shares (bytes : List Byte) (totals : List Nat) :
    (shares bytes totals).flatten = bytes.take totals.sum := by
  induction totals generalizing bytes with
  | nil => rfl
  | cons total rest ih => rw [shares, List.flatten_cons, ih, List.sum_cons, List.take_add]

theorem shares_nil (totals : List Nat) : shares [] totals = totals.map fun _ => [] := by
  induction totals with
  | nil => rfl
  | cons total rest ih => rw [shares, List.take_nil, List.drop_nil, ih, List.map_cons]

theorem shares_empty {totals : List Nat} (empty : ∀ total ∈ totals, total = 0) (bytes other : List Byte) :
    shares bytes totals = totals.map (other.take ·) := by
  induction totals generalizing bytes with
  | nil => rfl
  | cons total rest ih =>
    rw [shares, List.map_cons, ih fun total member => empty total (List.mem_cons_of_mem _ member),
      empty total (List.mem_cons_self ..), List.take_zero, List.take_zero]

/-- Where one stage alone has room, it gets the first bytes. -/
theorem shares_once {bytes : List Byte} {length : Nat} {totals : List Nat}
    (once : (totals.filter fun total => total ≠ 0).length ≤ 1)
    (short : ∀ total ∈ totals, min total bytes.length ≤ length) :
    shares (bytes.take length) totals = totals.map (bytes.take ·) := by
  induction totals with
  | nil => rfl
  | cons total rest ih =>
    rw [shares, List.map_cons]
    by_cases room : total = 0
    · rw [List.filter_cons_of_neg (by simpa using room)] at once
      rw [room, List.take_zero, List.take_zero, List.drop_zero,
        ih once fun total member => short total (List.mem_cons_of_mem _ member)]
    · rw [List.filter_cons_of_pos (by simpa using room), List.length_cons] at once
      have none : rest.filter (fun total => total ≠ 0) = [] :=
        List.eq_nil_of_length_eq_zero (by omega)
      have empty : ∀ total ∈ rest, total = 0 := fun total member => by
        simpa using List.filter_eq_nil_iff.mp none total member
      have share : (bytes.take length).take total = bytes.take total := by
        have fits := short total (List.mem_cons_self ..)
        rw [List.take_take, List.take_eq_take_iff]
        omega
      rw [share, shares_empty empty _ bytes]

namespace UsbState

def executeAll (mapped : Mapping) (state : UsbState) (stages : List Stage) : UsbState :=
  stages.foldl (execute mapped) state

/-- The record of some stages. -/
def trace (mapped : Mapping) (state : UsbState) : List Stage → List Xfer
  | [] => []
  | stage :: rest =>
    ⟨0, stage.addr, none, state, state.execute mapped stage⟩ :: (state.execute mapped stage).trace mapped rest

end UsbState

variable {mapped : Mapping} {state : UsbState} {ram : FlatMemory} {stages : List Stage} {kept : List Word}

theorem executeAll_state (ehci : Ehci) (stages : List Stage) :
    (ehci.executeAll mapped stages).state = ehci.state.executeAll mapped stages := by
  induction stages generalizing ehci with
  | nil => rfl
  | cons stage rest ih => exact ih (ehci.execute mapped stage)

theorem executeAll_xfers (ehci : Ehci) (stages : List Stage) :
    (ehci.executeAll mapped stages).usbXfers = ehci.usbXfers ++ ehci.state.trace mapped stages := by
  induction stages generalizing ehci with
  | nil => exact (List.append_nil _).symm
  | cons stage rest ih =>
    refine (ih (ehci.execute mapped stage)).trans ?_
    rw [UsbState.trace, Ehci.execute]
    dsimp only
    rw [List.append_assoc, List.singleton_append]

theorem trace_append (state : UsbState) (first second : List Stage) :
    state.trace mapped (first ++ second) =
      state.trace mapped first ++ (state.executeAll mapped first).trace mapped second := by
  induction first generalizing state with
  | nil => rfl
  | cons stage rest ih =>
    rw [List.cons_append, UsbState.trace, ih, UsbState.trace]
    rfl

/-- Cells that are kept stay as they are. -/
theorem executeAll_kept (unmapped : mapped 0#20 = false) (staged : Staged mapped ram stages kept)
    {part : List Stage} (within : ∀ stage ∈ part, stage ∈ stages ∧ stage.active = true)
    {cell : Word} (member : cell ∈ kept) :
    (state.executeAll mapped part).ram cell = state.ram cell := by
  induction part generalizing state with
  | nil => rfl
  | cons stage rest ih =>
    obtain ⟨present, active⟩ := within stage (List.mem_cons_self ..)
    refine (ih fun other found => within other (List.mem_cons_of_mem _ found)).trans ?_
    exact execute_outside unmapped (staged.inRam stage present).backed active (staged.fits stage present active)
      (fun status => staged.apart.status_kept stage present cell status member)
      (fun data => staged.apart.data_kept stage present cell data member)

/-- What a token in memory says after its stage. -/
theorem Ran.of_ram {stage : Stage} {moved : Nat} {bytes : List Byte} {before after : UsbState}
    {count : Nat} (ram : after.ram =
      (scatter before.ram stage.bufs bytes).write32 (stage.addr + 8) (tokenDone stage.token count))
    (left : stage.total - count = stage.total - moved) : Ran stage moved bytes before after := by
  have token : after.ram.read32 (stage.addr + 8) = tokenDone stage.token count := by
    rw [ram, FlatMemory.read32_write32]
  refine ⟨?_, ?_, ?_⟩
  · rw [token]
    exact tokenActive_done ..
  · rw [token, tokenTotal_done]
    exact left
  · intro cell outside
    rw [ram, FlatMemory.write32_outside outside]

variable {transfer : Transfer}

/-- A packet in one piece is in memory. -/
theorem packet_backed (unmapped : mapped 0#20 = false) {bufs : List Word} (fits : QtdFits mapped bufs 8)
    (piece : ∀ index < 8, qtdCell bufs index = qtdBuf bufs 0 + BitVec.ofNat 32 index) :
    qtdBuf bufs 0 ≠ 0 ∧ mapped.backed (qtdBuf bufs 0) 8 = true := by
  have pages (index : Nat) (inside : index < 8) :
      mapped ((qtdBuf bufs 0 + BitVec.ofNat 32 index).extractLsb' 12 20) = true := by
    rw [← piece index inside]
    exact fits.backed index inside
  refine ⟨qtdBuf_ne unmapped fits (by simp [pageStart]), ?_⟩
  unfold Mapping.backed
  rw [Bool.and_eq_true, decide_eq_true_iff, List.all_eq_true]
  refine ⟨?_, fun index member => pages index (List.mem_range.mp member)⟩
  by_contra passed
  -- past the last address comes page 0
  have bound := (qtdBuf bufs 0).isLt
  have wrapped : qtdBuf bufs 0 + BitVec.ofNat 32 (2 ^ 32 - (qtdBuf bufs 0).toNat) = 0#32 := by bv_omega
  have page := pages (2 ^ 32 - (qtdBuf bufs 0).toNat) (by omega)
  rw [wrapped, show (0#32).extractLsb' 12 20 = 0#20 by decide, unmapped] at page
  cases page

theorem mem_qtdCells {bufs : List Word} {index count : Nat} (inside : index < count) :
    qtdCell bufs index ∈ qtdCells bufs 0 count :=
  List.mem_map.mpr ⟨index, by simpa using inside, rfl⟩

theorem gather_congr {memory : FlatMemory} {bufs : List Word}
    (same : ∀ cell ∈ qtdCells bufs 0 8, memory cell = ram cell) :
    UsbSetup.gather memory bufs = .gather ram bufs := by
  have byte (index : Nat) (inside : index < 8) : memory (qtdCell bufs index) = ram (qtdCell bufs index) :=
    same _ (mem_qtdCells inside)
  rw [UsbSetup.gather, UsbSetup.gather, byte 0 (by decide), byte 1 (by decide), byte 2 (by decide),
    byte 3 (by decide), byte 4 (by decide), byte 5 (by decide), byte 6 (by decide), byte 7 (by decide)]

theorem ofRam_eq_gather {bufs : List Word}
    (piece : ∀ index < 8, qtdCell bufs index = qtdBuf bufs 0 + BitVec.ofNat 32 index) :
    UsbSetup.ofRam ram (qtdBuf bufs 0) = .gather ram bufs := by
  rw [UsbSetup.gather, piece 0 (by decide), piece 1 (by decide), piece 2 (by decide), piece 3 (by decide),
    piece 4 (by decide), piece 5 (by decide), piece 6 (by decide), piece 7 (by decide), BitVec.add_zero]
  rfl

/-- After a SETUP stage the packet is the last one. -/
theorem setup_stage (unmapped : mapped 0#20 = false) (inRam : transfer.InRam mapped ram)
    (backed : mapped.backed transfer.setup.addr 32 = true)
    (piece : ∀ index < 8, qtdCell transfer.setup.bufs index =
      qtdBuf transfer.setup.bufs 0 + BitVec.ofNat 32 index)
    (same : ∀ cell ∈ transfer.packetCells, state.ram cell = ram cell) :
    let after := state.execute mapped transfer.setup
    Ran transfer.setup 8 [] state after ∧ after.setup = transfer.packet ∧ after.setupValid = true ∧
      after.settings = state.settings := by
  have executed : state.execute mapped transfer.setup = _ :=
    execute_setup backed inRam.setup (packet_backed unmapped inRam.fits piece)
  intro after
  refine ⟨Ran.of_ram (congrArg UsbState.ram executed) ?_, ?_, congrArg UsbState.setupValid executed,
    (congrArg UsbState.settings executed).trans rfl⟩
  · rw [inRam.size]
  · refine (congrArg UsbState.setup executed).trans ?_
    dsimp only
    rw [ofRam_eq_gather piece, gather_congr same, inRam.packet]

/-- IN stages get what the device has, each from its start. -/
theorem data_stages (unmapped : mapped 0#20 = false) (staged : Staged mapped ram stages kept)
    {data : List Stage} (within : ∀ stage ∈ data, stage ∈ stages ∧ stage.active = true)
    (isIn : ∀ stage ∈ data, stage.pid = 1) (valid : state.setupValid = true) :
    let after := state.executeAll mapped data
    Received state data (data.map fun stage => state.payload.take stage.total) (state.trace mapped data) after ∧
      after.setup = state.setup ∧ after.setupValid = true ∧ after.settings = state.settings := by
  intro after
  induction data generalizing state with
  | nil => exact ⟨.nil, rfl, valid, rfl⟩
  | cons stage rest ih =>
    obtain ⟨present, active⟩ := within stage (List.mem_cons_self ..)
    have first := isIn stage (List.mem_cons_self ..)
    have executed := execute_in unmapped (staged.inRam stage present).backed first
      (staged.fits stage present active first) valid
    have payload : (state.execute mapped stage).payload = state.payload := by
      rw [executed]
      rfl
    have validNext : (state.execute mapped stage).setupValid = true := by
      rw [executed]
      exact valid
    obtain ⟨received, setup, stillValid, settings⟩ := ih (fun other member => within other (List.mem_cons_of_mem _ member))
      (fun other member => isIn other (List.mem_cons_of_mem _ member)) validNext
    rw [payload] at received
    refine ⟨.cons (Ran.of_ram (congrArg UsbState.ram executed) rfl) received, setup.trans ?_, stillValid,
      settings.trans ?_⟩
    · rw [executed]
    · rw [executed]
      rfl

/-- The status stage moves nothing, and sets the device where it is OUT. -/
theorem status_stage (unmapped : mapped 0#20 = false) (inRam : transfer.InRam mapped ram)
    (backed : mapped.backed transfer.status.addr 32 = true) (valid : state.setupValid = true) :
    let after := state.execute mapped transfer.status
    Ran transfer.status 0 [] state after ∧
      after.settings = if transfer.data = [] then state.settings else state.act.settings := by
  intro after
  have pid := inRam.status
  split at pid
  · rename_i noData
    have fits : QtdFits mapped transfer.status.bufs transfer.status.total := by
      rw [inRam.empty]
      refine ⟨?_, fun index below => absurd below (Nat.not_lt_zero _)⟩
      exact Nat.le_of_lt (Nat.lt_of_lt_of_le (qtdOffset_lt _) (by decide))
    have executed := execute_in unmapped backed pid fits valid
    rw [inRam.empty, List.take_zero] at executed
    rw [if_pos noData]
    exact ⟨Ran.of_ram (congrArg UsbState.ram executed) rfl, (congrArg UsbState.settings executed).trans rfl⟩
  · rename_i someData
    have executed := execute_out backed pid valid
    rw [if_neg someData]
    refine ⟨Ran.of_ram (congrArg UsbState.ram executed) ?_, (congrArg UsbState.settings executed).trans rfl⟩
    rw [inRam.empty]

theorem sets_other {packet : UsbSetup} (other : packet.bmReq ≠ 0x00#8) (settings : Settings) :
    packet.sets settings = settings := by
  rw [UsbSetup.sets, if_neg fun both => other both.1, if_neg fun both => other both.1]

/-- An OUT stage takes the request for a standard one. -/
theorem act_eq (state : UsbState) :
    state.act.settings = { state.setup with bmReq := 0x00#8 }.sets state.settings := by
  unfold UsbState.act UsbSetup.sets
  simp only [true_and]
  split
  · rfl
  · split
    · rfl
    · rfl

/-- An honoured request with data is a standard one, or one that changes nothing. -/
theorem act_settings (honoured : transfer.Honoured state.settings) (someData : transfer.data ≠ [])
    (packet : state.setup = transfer.packet) : state.act.settings = transfer.packet.sets state.settings := by
  rw [act_eq, packet]
  by_cases standard : transfer.packet.bmReq = 0x00#8
  · rw [← standard]
  · rw [sets_other standard]
    exact (honoured.standard someData).resolve_left standard

/-- What an honoured request gives the host is what it is to receive. -/
theorem honoured_answers (honoured : transfer.Honoured state.settings)
    (packet : state.setup = transfer.packet) {given : List (List Byte)}
    (expected : transfer.answers state.settings = some given) :
    transfer.data.map (fun stage => state.payload.take stage.total) = given := by
  unfold Transfer.answers at expected
  split at expected
  · rename_i gets
    cases expected
    have payload : state.payload = (Hidkbd.descriptor transfer.packet.wValue).getD [] := by
      rw [UsbState.payload, packet, if_pos gets.2]
    rw [payload]
    cases found : Hidkbd.descriptor transfer.packet.wValue with
    | none =>
      rw [Option.getD_none, List.take_nil, shares_nil, List.map_map]
      simp only [List.take_nil]
      rfl
    | some bytes =>
      obtain ⟨once, short⟩ := honoured.descriptor gets bytes found
      rw [Option.getD_some, shares_once, List.map_map]
      · rfl
      · rwa [List.filter_map, List.length_map]
      · intro total member
        obtain ⟨stage, present, rfl⟩ := List.mem_map.mp member
        exact short stage present
  · split at expected
    · rename_i gets
      cases expected
      have payload : state.payload = [if state.configured then 1 else 0] := by
        have notDescriptor : ¬state.setup.bReq = 0x06#8 := by
          rw [packet, gets.2]
          decide
        rw [UsbState.payload, if_neg notDescriptor, packet, if_pos gets.2]
      rw [payload]
      rfl
    · cases expected

/-- A transfer that is honoured takes effect. -/
theorem Performs.of_honoured (unmapped : mapped 0#20 = false) (staged : Staged mapped ram stages kept)
    (within : ∀ stage ∈ transfer.stages, stage ∈ stages ∧ stage.active = true)
    (inRam : transfer.InRam mapped ram) (packet : transfer.packetCells ⊆ kept)
    (same : ∀ cell ∈ kept, state.ram cell = ram cell) (honoured : transfer.Honoured state.settings) :
    Performs transfer state (state.trace mapped transfer.stages) (state.executeAll mapped transfer.stages) := by
  have setupMember : transfer.setup ∈ transfer.stages := List.mem_cons_self ..
  have statusMember : transfer.status ∈ transfer.stages := List.mem_append_right _ (List.mem_singleton_self _)
  have backed (stage : Stage) (member : stage ∈ transfer.stages) : mapped.backed stage.addr 32 = true :=
    (staged.inRam stage (within stage member).1).backed
  obtain ⟨setup, last, valid, settings⟩ := setup_stage unmapped inRam (backed _ setupMember) honoured.piece
    fun cell found => same cell (packet found)
  obtain ⟨data, lastStill, validStill, settingsStill⟩ := data_stages unmapped staged
    (fun stage member => within stage (List.mem_append_left _ (List.mem_cons_of_mem _ member))) inRam.data valid
  obtain ⟨status, set⟩ := status_stage unmapped inRam (backed _ statusMember) validStill
  have record : state.trace mapped transfer.stages =
      ⟨0, transfer.setup.addr, none, state, state.execute mapped transfer.setup⟩ ::
        (state.execute mapped transfer.setup).trace mapped transfer.data ++
        [⟨0, transfer.status.addr, none, (state.execute mapped transfer.setup).executeAll mapped transfer.data,
          ((state.execute mapped transfer.setup).executeAll mapped transfer.data).execute mapped
            transfer.status⟩] := by
    rw [Transfer.stages, List.cons_append, UsbState.trace, trace_append]
    rfl
  have final : state.executeAll mapped transfer.stages =
      ((state.execute mapped transfer.setup).executeAll mapped transfer.data).execute mapped
        transfer.status := by
    rw [Transfer.stages, UsbState.executeAll, List.foldl_append]
    rfl
  rw [record, final]
  refine .intro setup data status (fun given expected => ?_) ?_
  · rw [← settings] at honoured expected
    exact honoured_answers honoured last expected
  · have before := settingsStill.trans settings
    rw [set]
    split
    · rename_i noData
      rw [before, honoured.noData noData]
    · rename_i someData
      rw [← before] at honoured ⊢
      exact act_settings honoured someData (lastStill.trans last)

theorem Performs.settings {before after : UsbState} {xfers : List Xfer}
    (performs : Performs transfer before xfers after) :
    after.settings = transfer.packet.sets before.settings := by
  obtain ⟨-, -, -, -, settings⟩ := performs
  exact settings

/-- After transfers the device is set as the last requests to set it asked for. -/
theorem PerformsAll.settings {transfers : List Transfer} {before after : UsbState} {xfers : List Xfer}
    (performs : PerformsAll transfers before xfers after) :
    after.settings = transfers.foldl (fun settings transfer => transfer.packet.sets settings) before.settings := by
  induction performs with
  | nil => rfl
  | cons first rest ih => rw [ih, first.settings, List.foldl_cons]

/-- Transfers that are honoured take effect one after another. -/
theorem PerformsAll.of_honoured (unmapped : mapped 0#20 = false) (staged : Staged mapped ram stages kept)
    {transfers : List Transfer}
    (within : ∀ stage ∈ transfers.flatMap Transfer.stages, stage ∈ stages ∧ stage.active = true)
    (inRam : ∀ transfer ∈ transfers, transfer.InRam mapped ram)
    (packets : transfers.flatMap Transfer.packetCells ⊆ kept) (same : ∀ cell ∈ kept, state.ram cell = ram cell)
    (honoured : Honours state.settings transfers) :
    PerformsAll transfers state (state.trace mapped (transfers.flatMap Transfer.stages))
      (state.executeAll mapped (transfers.flatMap Transfer.stages)) := by
  induction transfers generalizing state with
  | nil => exact .nil
  | cons transfer rest ih =>
    rw [List.flatMap_cons] at within packets ⊢
    have first := Performs.of_honoured unmapped staged
      (fun stage member => within stage (List.mem_append_left _ member)) (inRam transfer (List.mem_cons_self ..))
      (List.append_subset.mp packets).1 same honoured.1
    have unchanged (cell : Word) (member : cell ∈ kept) :
        (state.executeAll mapped transfer.stages).ram cell = ram cell :=
      (executeAll_kept unmapped staged (fun stage found => within stage (List.mem_append_left _ found))
        member).trans (same cell member)
    have later : Honours (state.executeAll mapped transfer.stages).settings rest := by
      rw [first.settings]
      exact honoured.2
    have append : state.executeAll mapped (transfer.stages ++ rest.flatMap Transfer.stages) =
        (state.executeAll mapped transfer.stages).executeAll mapped (rest.flatMap Transfer.stages) :=
      List.foldl_append
    rw [trace_append, append]
    exact .cons first <| ih (fun stage member => within stage (List.mem_append_right _ member))
      (fun other member => inRam other (List.mem_cons_of_mem _ member)) (List.append_subset.mp packets).2
      unchanged later

end ZeeboLle.Linux
