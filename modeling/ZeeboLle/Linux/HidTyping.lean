import ZeeboLle.Linux.EhciReports
import ZeeboLle.Linux.ScreenText

/-! Text that the host types on the emulated keyboard once the guest is ready: when it is typed, the
reports it becomes, and what a keyboard driver reads from the reports that arrive. -/
namespace ZeeboLle.Linux

open Unicorn Paging

/-- The usage and the modifiers of a character; usage zero is no key. -/
def hidKey (c : Byte) : Byte × Byte :=
  if 97 ≤ c ∧ c ≤ 122 then (0x04 + (c - 97), 0)
  else if 65 ≤ c ∧ c ≤ 90 then (0x04 + (c - 65), 0x02)
  else if 49 ≤ c ∧ c ≤ 57 then (0x1e + (c - 49), 0)
  else if c = 48 then (0x27, 0)
  else if c = 10 then (0x28, 0)
  else if c = 32 then (0x2c, 0)
  else if c = 46 then (0x37, 0)
  else if c = 47 then (0x38, 0)
  else if c = 45 then (0x2d, 0)
  else (0, 0)

/-- `hid_type_ascii` of a C string. -/
def Ehci.hidTypeAscii (ehci : Ehci) (s : List Byte) : Ehci :=
  (s.takeWhile (· ≠ 0)).foldl (fun ehci c => ehci.hidQueueKey (hidKey c).1 (hidKey c).2) ehci

/-- What the host waits for and how; the margin is in instructions. -/
structure TypingPlan where
  script : Option (List Byte)
  startAt : Option (BitVec 64)
  wait : Option (List Byte)
  margin : BitVec 64
  fbText : Bool

/-- An instruction after which the host has looked at the keyboard, and whether the text it waits for
could be seen then. -/
structure Moment where
  icount : BitVec 64
  visible : Bool

/-- The host beside the machine. `typed` and `moments` are records for the proofs. -/
structure Typist where
  typeAt : BitVec 64
  waitDone : Bool
  waitSeenAt : BitVec 64
  icount : BitVec 64
  console : List Byte
  fbLines : List (List Byte)
  ehci : Ehci
  typed : List (BitVec 64)
  moments : List Moment

namespace Typist

/-- A text to wait for takes the place of the number of instructions. -/
def boot (plan : TypingPlan) (ehci : Ehci) : Typist where
  typeAt := if plan.script.isSome ∧ plan.wait = none then plan.startAt.getD 380000000 else 0
  waitDone := false
  waitSeenAt := 0
  icount := 0
  console := []
  fbLines := []
  ehci := ehci
  typed := []
  moments := []

/-- The text is in the console, or in a line of the screen. -/
def sees (typist : Typist) (text : List Byte) : Bool :=
  decide (text <:+: typist.console) || typist.fbLines.any fun line => decide (text <:+: line)

def type (plan : TypingPlan) (typist : Typist) : Typist :=
  match plan.script with
  | none => typist
  | some s => { typist with
      ehci := typist.ehci.hidTypeAscii s
      typed := typist.typed ++ [typist.icount] }

def atStep (plan : TypingPlan) (typist : Typist) : Typist :=
  if typist.typeAt ≠ 0 ∧ typist.typeAt ≤ typist.icount then type plan { typist with typeAt := 0 }
  else typist

/-- An instruction at which the screen is read and waiting goes on. -/
def isCheck (icount : BitVec 64) : Bool := icount &&& 0x3fffff = 0

/-- A plan without a script has no text to wait for. -/
def waitStep (plan : TypingPlan) (typist : Typist) : Typist :=
  match plan.script.bind fun _ => plan.wait with
  | none => typist
  | some text =>
    if typist.waitDone || !isCheck typist.icount then typist
    else if typist.waitSeenAt = 0 then
      if typist.sees text then { typist with waitSeenAt := typist.icount } else typist
    else if typist.waitSeenAt + plan.margin ≤ typist.icount then
      type plan { typist with waitDone := true }
    else typist

def poll (mapped : Mapping) (typist : Typist) : Typist :=
  if typist.icount &&& 0x3ff = 0 then
    { typist with ehci := (typist.ehci.usbPeriodicRun mapped).usbEngineRun mapped }
  else typist

/-- Where the screen cannot be read the lines stay. -/
def readScreen (mapped : Mapping) (plan : TypingPlan) (typist : Typist) : Typist :=
  if plan.fbText ∧ isCheck typist.icount = true then
    { typist with
      fbLines := (FbText.fbDecodeText mapped typist.ehci.state.ram).getD typist.fbLines }
  else typist

/-- The moment goes on record. -/
def note (plan : TypingPlan) (typist : Typist) : Typist :=
  { typist with
    moments := typist.moments ++ [⟨typist.icount, plan.wait.any fun text => typist.sees text⟩] }

/-- `on_code_probe`, as far as the keyboard and the screen go. -/
def onCode (mapped : Mapping) (plan : TypingPlan) (typist : Typist) : Typist :=
  let typist := { typist with icount := typist.icount + 1 }
  waitStep plan (note plan (readScreen mapped plan (atStep plan (poll mapped typist))))

end Typist

/-- What happens: an instruction, one in front of which an interrupt is taken instead, a character on
the guest's console, and what the guest does to memory and to the controller. -/
inductive TypistEvent where
  | code
  | interrupted
  | console (c : Byte)
  | guestMemory (ram : FlatMemory)
  | guestRegs (regs : UsbRegs)

namespace Typist

def step (mapped : Mapping) (plan : TypingPlan) (typist : Typist) : TypistEvent → Typist
  | .code => typist.onCode mapped plan
  | .interrupted => { typist with icount := typist.icount + 1 }
  | .console c =>
    if c = 10 ∨ c = 13 ∨ (0x20 ≤ c ∧ c < 0x7f) then { typist with console := typist.console ++ [c] }
    else typist
  | .guestMemory ram => { typist with ehci := typist.ehci.setRam ram }
  | .guestRegs regs => { typist with ehci := { typist.ehci with regs } }

def run (mapped : Mapping) (plan : TypingPlan) (typist : Typist) (events : List TypistEvent) : Typist :=
  events.foldl (step mapped plan) typist

end Typist

/-- The keys that a report has down. -/
def keysDown (report : HidReport) : List Byte := report.toList.drop 2

/-- Keys that are down and were not, with the modifiers. -/
def pressed (before after : HidReport) : List (Byte × Byte) :=
  ((keysDown after).filter fun usage => usage ≠ 0 ∧ !(keysDown before).contains usage).map fun usage =>
    (usage, after.toList.headD 0)

def allUp : HidReport := Vector.replicate 8 0

/-- The keys pressed along a series of reports. -/
def presses : HidReport → List HidReport → List (Byte × Byte)
  | _, [] => []
  | before, report :: rest => pressed before report ++ presses report rest

/-- What a key writes with and without a shift key. -/
def keyChar (key : Byte × Byte) : Option Byte :=
  let (usage, mods) := key
  let shift : Bool := mods &&& 0x22 ≠ 0
  if 0x04 ≤ usage ∧ usage ≤ 0x1d then some ((if shift then 65 else 97) + (usage - 0x04))
  else if shift then none
  else if 0x1e ≤ usage ∧ usage ≤ 0x26 then some (49 + (usage - 0x1e))
  else if usage = 0x27 then some 48
  else if usage = 0x28 then some 10
  else if usage = 0x2c then some 32
  else if usage = 0x2d then some 45
  else if usage = 0x37 then some 46
  else if usage = 0x38 then some 47
  else none

/-- What a keyboard driver reads that starts with no key down. -/
def textOf (reports : List HidReport) : List Byte := (presses allUp reports).filterMap keyChar

/-- The characters that have a key. -/
def typeable (s : List Byte) : List Byte := (s.takeWhile (· ≠ 0)).filter fun c => (hidKey c).1 ≠ 0

/-- The reports that a text becomes. -/
def typedReports (s : List Byte) : List HidReport :=
  (typeable s).flatMap fun c => keyReports (hidKey c).1 (hidKey c).2

theorem keyChar_hidKey {c : Byte} (key : (hidKey c).1 ≠ 0) : keyChar (hidKey c) = some c := by
  revert c
  decide +kernel

theorem presses_append (before : HidReport) (first second : List HidReport) :
    presses before (first ++ second) = presses before first ++ presses (first.getLastD before) second := by
  induction first generalizing before with
  | nil => rfl
  | cons report first ih =>
    rw [List.cons_append, presses, presses, ih, List.append_assoc, List.getLastD_cons]

theorem textOf_front {first all : List HidReport} (front : first <+: all) : textOf first <+: textOf all := by
  obtain ⟨rest, rfl⟩ := front
  rw [textOf, textOf, presses_append, List.filterMap_append]
  exact List.prefix_append _ _

/-- A key down and up again is one key pressed. -/
theorem presses_keyReports {usage : Byte} (mods : Byte) (key : usage ≠ 0) (rest : List HidReport) :
    presses allUp (keyReports usage mods ++ rest) = (usage, mods) :: presses allUp rest := by
  have down : pressed allUp #v[mods, 0, usage, 0, 0, 0, 0, 0] = [(usage, mods)] := by
    change ([usage, 0, 0, 0, 0, 0].filter fun usage : Byte =>
      usage ≠ 0 ∧ !(keysDown allUp).contains usage).map _ = _
    have fresh : (!(keysDown allUp).contains usage) = true := by simpa [keysDown, allUp] using key
    rw [List.filter_cons_of_pos (by exact decide_eq_true ⟨key, fresh⟩)]
    rfl
  have up : pressed #v[mods, 0, usage, 0, 0, 0, 0, 0] allUp = [] := by rfl
  simp only [keyReports, List.cons_append, List.nil_append, presses]
  rw [down, show #v[0, 0, 0, 0, 0, 0, 0, 0] = allUp from rfl, up]
  rfl

theorem textOf_typedReports (s : List Byte) : textOf (typedReports s) = typeable s := by
  have each : ∀ c ∈ typeable s, (hidKey c).1 ≠ 0 := fun c member =>
    of_decide_eq_true (List.mem_filter.mp member).2
  rw [typedReports, textOf]
  revert each
  generalize typeable s = text
  intro each
  induction text with
  | nil => rfl
  | cons c text ih =>
    obtain ⟨key, rest⟩ := List.forall_mem_cons.mp each
    rw [List.flatMap_cons, presses_keyReports _ key, List.filterMap_cons, keyChar_hidKey key]
    exact congrArg _ (ih rest)

variable {mapped : Mapping} {queued : List HidReport}

theorem Accounted.hidTypeAscii {ehci : Ehci} (accounted : Accounted mapped queued ehci) (s : List Byte) :
    Accounted mapped (queued ++ typedReports s) (ehci.hidTypeAscii s) := by
  rw [typedReports, typeable, Ehci.hidTypeAscii]
  generalize s.takeWhile (· ≠ 0) = text
  induction text generalizing queued ehci with
  | nil =>
    rw [List.filter_nil, List.flatMap_nil, List.append_nil]
    exact accounted
  | cons c text ih =>
    have queuedKey := accounted.step (.queueKey (hidKey c).1 (hidKey c).2)
    have rest := ih queuedKey
    rw [List.foldl_cons]
    rw [HidEvent.queues] at rest
    by_cases none : (hidKey c).1 = 0
    · rw [if_pos none, List.append_nil] at rest
      rw [List.filter_cons_of_neg (by simpa using none)]
      exact rest
    · rw [if_neg none, List.append_assoc] at rest
      rw [List.filter_cons_of_pos (by simpa using none), List.flatMap_cons]
      exact rest

/-- The checks from the first one on that saw the text. Instruction zero does not count. -/
def sighted (moments : List Moment) : List Moment :=
  (moments.filter fun moment => Typist.isCheck moment.icount).dropWhile fun moment =>
    !(moment.visible && moment.icount ≠ 0)

/-- The instruction at which the plan types. -/
def typingMoment (plan : TypingPlan) (moments : List Moment) : Option (BitVec 64) :=
  match plan.script, plan.wait with
  | none, _ => none
  | some _, none =>
    let start := plan.startAt.getD 380000000
    if start = 0 then none else (moments.find? fun moment => start ≤ moment.icount).map Moment.icount
  | some _, some _ =>
    match sighted moments with
    | [] => none
    | first :: later =>
      (later.find? fun moment => first.icount + plan.margin ≤ moment.icount).map Moment.icount

/-- What the host keeps for the moment to come. -/
def Phase (plan : TypingPlan) (typist : Typist) : Prop :=
  match plan.script, plan.wait with
  | none, _ => typist.typeAt = 0
  | some _, none => typist.typeAt = if typist.typed = [] then plan.startAt.getD 380000000 else 0
  | some _, some _ => typist.typeAt = 0 ∧
      typist.waitSeenAt = ((sighted typist.moments).head?.map Moment.icount).getD 0 ∧
        typist.waitDone = !typist.typed.isEmpty

/-- The reports of everything typed. -/
def queuedBy (plan : TypingPlan) (typed : List (BitVec 64)) : List HidReport :=
  typed.flatMap fun _ => (plan.script.map typedReports).getD []

/-- The state of the host, by the moments on record. -/
structure Tracks (mapped : Mapping) (plan : TypingPlan) (typist : Typist) : Prop where
  typed : typist.typed = (typingMoment plan typist.moments).toList
  phase : Phase plan typist
  accounted : Accounted mapped (queuedBy plan typist.typed) typist.ehci

variable {plan : TypingPlan} {typist : Typist}

theorem Typist.poll_eq (mapped : Mapping) (typist : Typist) : ∃ ehci,
    typist.poll mapped = { typist with ehci } ∧
      ∀ queued, Accounted mapped queued typist.ehci → Accounted mapped queued ehci := by
  rw [Typist.poll]
  split
  · exact ⟨_, rfl, fun _ accounted => accounted.usbPeriodicRun.usbEngineRun⟩
  · exact ⟨_, rfl, fun _ accounted => accounted⟩

theorem Typist.readScreen_eq (mapped : Mapping) (plan : TypingPlan) (typist : Typist) :
    ∃ fbLines, typist.readScreen mapped plan = { typist with fbLines } := by
  rw [Typist.readScreen]
  split
  · exact ⟨_, rfl⟩
  · exact ⟨_, rfl⟩

theorem queuedBy_snoc {s : List Byte} (script : plan.script = some s) (typed : List (BitVec 64))
    (icount : BitVec 64) : queuedBy plan (typed ++ [icount]) = queuedBy plan typed ++ typedReports s := by
  simp [queuedBy, script]

/-- Without a script nothing is typed. -/
theorem Tracks.onCode_idle (tracks : Tracks mapped plan typist) (script : plan.script = none) :
    Tracks mapped plan (typist.onCode mapped plan) := by
  obtain ⟨typed, phase, accounted⟩ := tracks
  obtain ⟨ehci, polled, kept⟩ := Typist.poll_eq mapped { typist with icount := typist.icount + 1 }
  have idle : typist.typeAt = 0 := by simpa [Phase, script] using phase
  have silent : typist.typed = [] := by simpa [typingMoment, script] using typed
  have unmoved : Typist.atStep plan { typist with icount := typist.icount + 1, ehci } =
      { typist with icount := typist.icount + 1, ehci } := if_neg fun both => both.1 idle
  obtain ⟨fbLines, read⟩ := Typist.readScreen_eq mapped plan
    { typist with icount := typist.icount + 1, ehci }
  have after : typist.onCode mapped plan =
      Typist.note plan { typist with icount := typist.icount + 1, ehci, fbLines } := by
    rw [Typist.onCode, polled, unmoved, read, Typist.waitStep, script]
    rfl
  rw [after]
  refine ⟨?_, ?_, kept _ accounted⟩
  · change typist.typed = _
    simp [silent, typingMoment, script]
  · simp only [Phase, script]
    exact idle

theorem find?_snoc {α : Type} (p : α → Bool) (items : List α) (item : α) : (items ++ [item]).find? p =
    (items.find? p).or (if p item then some item else none) := by
  rw [List.find?_append, List.find?_singleton]

/-- Typing at an instruction that is known beforehand. -/
theorem Tracks.onCode_at (tracks : Tracks mapped plan typist) {s : List Byte} (script : plan.script = some s)
    (wait : plan.wait = none) : Tracks mapped plan (typist.onCode mapped plan) := by
  obtain ⟨typed, phase, accounted⟩ := tracks
  obtain ⟨ehci, polled, kept⟩ := Typist.poll_eq mapped { typist with icount := typist.icount + 1 }
  have running := kept _ accounted
  simp only [Phase, script, wait] at phase
  simp only [typingMoment, script, wait] at typed
  have noWait (typist : Typist) : Typist.waitStep plan typist = typist := by
    rw [Typist.waitStep, script, wait]
    rfl
  rw [Typist.onCode, polled, noWait, Typist.atStep]
  split
  · rename_i due
    obtain ⟨set, reached⟩ := due
    have fresh : typist.typed = [] := by
      by_contra typedBefore
      exact set (phase.trans (if_neg typedBefore))
    rw [if_pos fresh] at phase
    rw [fresh, if_neg (phase ▸ set)] at typed
    have notYet := Option.toList_eq_nil_iff.mp typed.symm
    rw [Option.map_eq_none_iff] at notYet
    simp only [Typist.type, script]
    obtain ⟨fbLines, read⟩ := Typist.readScreen_eq mapped plan { typist with
      typeAt := 0, icount := typist.icount + 1, ehci := ehci.hidTypeAscii s,
      typed := typist.typed ++ [typist.icount + 1] }
    rw [read]
    refine ⟨?_, ?_, ?_⟩
    · simp only [Typist.note, typingMoment, script, wait]
      rw [if_neg (phase ▸ set), find?_snoc, notYet, Option.none_or,
        if_pos (by exact decide_eq_true (phase ▸ reached)), fresh]
      rfl
    · simp only [Phase, Typist.note, script, wait]
      rw [if_neg (by simp)]
    · simp only [Typist.note]
      rw [queuedBy_snoc script]
      exact running.hidTypeAscii s
  · rename_i waiting
    obtain ⟨fbLines, read⟩ := Typist.readScreen_eq mapped plan
      { typist with icount := typist.icount + 1, ehci }
    rw [read]
    refine ⟨?_, ?_, running⟩
    · simp only [Typist.note, typingMoment, script, wait]
      rw [typed]
      split
      · rfl
      · rename_i set
        rw [find?_snoc]
        cases earlier : typist.moments.find? fun moment => plan.startAt.getD 380000000 ≤ moment.icount with
        | some moment => rfl
        | none =>
          rw [earlier, if_neg set, Option.map_none] at typed
          have fresh : typist.typed = [] := typed
          rw [fresh, if_pos rfl] at phase
          rw [Option.none_or, if_neg]
          intro reached
          exact waiting ⟨phase ▸ set, phase ▸ of_decide_eq_true reached⟩
    · simp only [Phase, Typist.note, script, wait]
      exact phase

theorem sighted_snoc (moments : List Moment) (moment : Moment) :
    sighted (moments ++ [moment]) =
      if Typist.isCheck moment.icount = true ∧ (sighted moments ≠ [] ∨
          moment.visible = true ∧ moment.icount ≠ 0) then sighted moments ++ [moment]
      else sighted moments := by
  rw [sighted, sighted, List.filter_append]
  by_cases check : Typist.isCheck moment.icount = true
  · rw [List.filter_cons_of_pos (by exact check), List.filter_nil, List.dropWhile_append]
    generalize (moments.filter fun moment => Typist.isCheck moment.icount).dropWhile _ = before
    cases before with
    | nil =>
      rw [List.isEmpty_nil, if_pos rfl]
      by_cases counts : moment.visible = true ∧ moment.icount ≠ 0
      · rw [if_pos ⟨check, .inr counts⟩, List.dropWhile_cons_of_neg (by simpa using counts),
          List.nil_append]
      · have hidden : (!(moment.visible && decide (moment.icount ≠ 0))) = true := by
          by_contra shown
          exact counts (by simpa using shown)
        rw [if_neg fun both => both.2.elim (fun filled => filled rfl) counts,
          List.dropWhile_cons_of_pos (by exact hidden), List.dropWhile_nil]
    | cons first later =>
      rw [List.isEmpty_cons, if_neg Bool.false_ne_true, if_pos ⟨check, .inl (List.cons_ne_nil _ _)⟩]
  · rw [List.filter_cons_of_neg (by exact check), List.filter_nil, List.append_nil,
      if_neg fun both => check both.1]

theorem sighted_head {moments later : List Moment} {first : Moment}
    (found : sighted moments = first :: later) :
    first.icount ≠ 0 := by
  have stopped := List.head?_dropWhile_not (fun moment : Moment => !(moment.visible && moment.icount ≠ 0))
    (moments.filter fun moment => Typist.isCheck moment.icount)
  rw [sighted] at found
  rw [found] at stopped
  simp only [List.head?_cons, Bool.not_eq_false', Bool.and_eq_true, decide_eq_true_eq] at stopped
  exact stopped.2

/-- What a look at the screen for a text does. -/
theorem Tracks.waitStep (tracks : Tracks mapped plan typist) {s text : List Byte}
    (script : plan.script = some s) (wait : plan.wait = some text) :
    Tracks mapped plan (Typist.waitStep plan (Typist.note plan typist)) := by
  obtain ⟨typed, phase, accounted⟩ := tracks
  simp only [Phase, script, wait] at phase
  obtain ⟨off, seenAt, done⟩ := phase
  simp only [typingMoment, script, wait] at typed
  have noted : Typist.note plan typist = { typist with
      moments := typist.moments ++ [⟨typist.icount, typist.sees text⟩] } := by
    rw [Typist.note, wait, Option.any_some]
  have onRecord := sighted_snoc typist.moments ⟨typist.icount, typist.sees text⟩
  rw [noted, Typist.waitStep, script, wait]
  simp only [Option.bind_some]
  by_cases check : Typist.isCheck typist.icount = true
  · cases history : sighted typist.moments with
    | nil =>
      rw [history] at onRecord seenAt typed
      have fresh : typist.typed = [] := typed
      rw [fresh] at done
      have pending : typist.waitDone = false := done
      have unseen : typist.waitSeenAt = 0 := seenAt
      rw [if_neg (by simp [pending, check]), if_pos unseen]
      by_cases shown : typist.sees text = true ∧ typist.icount ≠ 0
      · rw [if_pos ⟨check, .inr shown⟩] at onRecord
        rw [if_pos (by exact shown.1)]
        refine ⟨?_, ?_, accounted⟩
        · simp only [typingMoment, script, wait, onRecord]
          exact fresh
        · simp only [Phase, script, wait, onRecord]
          exact ⟨off, rfl, by rw [pending, fresh]; rfl⟩
      · rw [if_neg fun both => both.2.elim (fun filled => filled rfl) shown] at onRecord
        have kept : typist.waitDone = !typist.typed.isEmpty := by
          rw [pending, fresh]
          rfl
        split
        · rename_i visible
          have zero : typist.icount = 0 := by
            by_contra counts
            exact shown ⟨visible, counts⟩
          refine ⟨?_, ?_, accounted⟩
          · simp only [typingMoment, script, wait, onRecord]
            exact fresh
          · simp only [Phase, script, wait, onRecord]
            exact ⟨off, zero, kept⟩
        · refine ⟨?_, ?_, accounted⟩
          · simp only [typingMoment, script, wait, onRecord]
            exact fresh
          · simp only [Phase, script, wait, onRecord]
            exact ⟨off, unseen, kept⟩
    | cons first later =>
      rw [history] at onRecord seenAt typed
      rw [if_pos ⟨check, .inl (List.cons_ne_nil _ _)⟩] at onRecord
      dsimp only at typed
      have seen : typist.waitSeenAt = first.icount := seenAt
      cases earlier : later.find? fun moment => first.icount + plan.margin ≤ moment.icount with
      | some moment =>
        rw [earlier] at typed
        have before : typist.typed = [moment.icount] := typed
        rw [before] at done
        have finished : typist.waitDone = true := done
        rw [if_pos (by simp [finished])]
        refine ⟨?_, ?_, accounted⟩
        · simp only [typingMoment, script, wait, onRecord, List.cons_append]
          rw [find?_snoc, earlier]
          exact before
        · simp only [Phase, script, wait, onRecord]
          exact ⟨off, seen, by rw [finished, before]; rfl⟩
      | none =>
        rw [earlier] at typed
        have fresh : typist.typed = [] := typed
        rw [fresh] at done
        have pending : typist.waitDone = false := done
        rw [if_neg (by simp [pending, check]), if_neg (by rw [seen]; exact sighted_head history)]
        split
        · rename_i due
          have reached : first.icount + plan.margin ≤ typist.icount := seen ▸ due
          simp only [Typist.type, script]
          refine ⟨?_, ?_, ?_⟩
          · simp only [typingMoment, script, wait, onRecord, List.cons_append]
            rw [find?_snoc, earlier, Option.none_or, if_pos (by exact decide_eq_true reached), fresh]
            rfl
          · simp only [Phase, script, wait, onRecord]
            exact ⟨off, seen, by rw [fresh]; rfl⟩
          · simp only
            rw [queuedBy_snoc script]
            exact accounted.hidTypeAscii s
        · rename_i early
          have notReached : ¬first.icount + plan.margin ≤ typist.icount := seen ▸ early
          refine ⟨?_, ?_, accounted⟩
          · simp only [typingMoment, script, wait, onRecord, List.cons_append]
            rw [find?_snoc, earlier, Option.none_or, if_neg (by exact notReached ∘ of_decide_eq_true),
              fresh]
            rfl
          · simp only [Phase, script, wait, onRecord]
            exact ⟨off, seen, by rw [pending, fresh]; rfl⟩
  · rw [if_neg fun both => check both.1] at onRecord
    rw [if_pos (by simp [check])]
    refine ⟨?_, ?_, accounted⟩
    · simp only [typingMoment, script, wait, onRecord]
      exact typed
    · simp only [Phase, script, wait, onRecord]
      exact ⟨off, seenAt, done⟩

/-- Only the instruction count and what is on the screen have changed. -/
theorem Tracks.of_same (tracks : Tracks mapped plan typist) {other : Typist}
    (typeAt : other.typeAt = typist.typeAt) (seenAt : other.waitSeenAt = typist.waitSeenAt)
    (done : other.waitDone = typist.waitDone) (typed : other.typed = typist.typed)
    (moments : other.moments = typist.moments)
    (accounted : ∀ queued, Accounted mapped queued typist.ehci → Accounted mapped queued other.ehci) :
    Tracks mapped plan other := by
  refine ⟨?_, ?_, ?_⟩
  · rw [typed, moments]
    exact tracks.typed
  · have phase := tracks.phase
    unfold Phase at phase ⊢
    rwa [typeAt, seenAt, done, typed, moments]
  · rw [typed]
    exact accounted _ tracks.accounted

theorem Tracks.onCode_wait (tracks : Tracks mapped plan typist) {s text : List Byte}
    (script : plan.script = some s) (wait : plan.wait = some text) :
    Tracks mapped plan (typist.onCode mapped plan) := by
  obtain ⟨ehci, polled, kept⟩ := Typist.poll_eq mapped { typist with icount := typist.icount + 1 }
  obtain ⟨fbLines, read⟩ := Typist.readScreen_eq mapped plan
    { typist with icount := typist.icount + 1, ehci }
  have off : typist.typeAt = 0 := by
    have phase := tracks.phase
    simp only [Phase, script, wait] at phase
    exact phase.1
  rw [Typist.onCode, polled, Typist.atStep, if_neg fun both => both.1 off, read]
  have now : Tracks mapped plan { typist with icount := typist.icount + 1, ehci, fbLines } :=
    tracks.of_same rfl rfl rfl rfl rfl kept
  exact now.waitStep script wait

theorem Tracks.step (tracks : Tracks mapped plan typist) (event : TypistEvent) :
    Tracks mapped plan (typist.step mapped plan event) := by
  cases event with
  | code =>
    cases script : plan.script with
    | none => exact tracks.onCode_idle script
    | some s =>
      cases wait : plan.wait with
      | none => exact tracks.onCode_at script wait
      | some text => exact tracks.onCode_wait script wait
  | interrupted => exact tracks.of_same rfl rfl rfl rfl rfl fun _ accounted => accounted
  | console c =>
    rw [Typist.step]
    split
    · exact tracks.of_same rfl rfl rfl rfl rfl fun _ accounted => accounted
    · exact tracks
  | guestMemory ram =>
    exact tracks.of_same rfl rfl rfl rfl rfl fun _ accounted => accounted.setRam ram
  | guestRegs regs =>
    exact tracks.of_same rfl rfl rfl rfl rfl fun _ accounted => accounted.of_same rfl rfl rfl

theorem Tracks.run (tracks : Tracks mapped plan typist) (events : List TypistEvent) :
    Tracks mapped plan (typist.run mapped plan events) := by
  induction events generalizing typist with
  | nil => exact tracks
  | cons event rest ih => exact ih (tracks.step event)

theorem boot_tracks (mapped : Mapping) (plan : TypingPlan) (state : UsbState) (regs : UsbRegs)
    (lines : VicLines) : Tracks mapped plan (.boot plan (.reset state regs lines)) := by
  refine ⟨?_, ?_, reset_accounted mapped state regs lines⟩
  · cases script : plan.script with
    | none => simp [Typist.boot, typingMoment, script]
    | some s =>
      cases wait : plan.wait with
      | none => simp [Typist.boot, typingMoment, script, wait]
      | some text => simp [Typist.boot, typingMoment, script, wait, sighted]
  · cases script : plan.script with
    | none => simp [Typist.boot, Phase, script]
    | some s =>
      cases wait : plan.wait with
      | none => simp [Typist.boot, Phase, script, wait]
      | some text => simp [Typist.boot, Phase, script, wait, sighted]

/-- What the guest's keyboard driver has read. -/
def Typist.read (typist : Typist) : List Byte := textOf (typist.ehci.usbXfers.filterMap Xfer.report)

/-- The script is typed at one moment at most, which the moments before it determine, and unless a
report finds no buffer the guest reads the script: all of it once the queue is empty. -/
structure ScriptArrives (mapped : Mapping) (plan : TypingPlan) (typist : Typist) : Prop where
  typed : typist.typed = (typingMoment plan typist.moments).toList
  silent : typist.typed = [] → typist.read = []
  arrives : typist.typed ≠ [] → (∀ call ∈ typist.ehci.hidTaken, call.fits mapped = true) →
    typist.read <+: typeable (plan.script.getD []) ∧
      (typist.ehci.hidReports = [] → typist.read = typeable (plan.script.getD []))

theorem Tracks.scriptArrives (tracks : Tracks mapped plan typist) : ScriptArrives mapped plan typist := by
  have order := tracks.accounted.order
  have delivered := tracks.accounted.deliveries
  refine ⟨tracks.typed, fun silent => ?_, fun typed fits => ?_⟩
  · rw [silent, queuedBy, List.flatMap_nil, List.append_eq_nil_iff, List.map_eq_nil_iff] at order
    rw [Typist.read, delivered, order.1]
    rfl
  · obtain ⟨icount, once⟩ : ∃ icount, typingMoment plan typist.moments = some icount := by
      rw [← Option.isSome_iff_exists, Option.isSome_iff_ne_none]
      intro never
      exact typed (by rw [tracks.typed, never]; rfl)
    have one : typist.typed = [icount] := by
      rw [tracks.typed, once]
      rfl
    obtain ⟨s, script⟩ : ∃ s, plan.script = some s := by
      cases script : plan.script with
      | none => simp [typingMoment, script] at once
      | some s => exact ⟨s, rfl⟩
    have all : queuedBy plan typist.typed = typedReports s := by
      simp [one, queuedBy, script]
    have kept : typist.ehci.hidTaken.filter (HidCall.fits mapped) = typist.ehci.hidTaken :=
      List.filter_eq_self.mpr fits
    rw [all] at order
    rw [kept] at delivered
    rw [script, Option.getD_some, Typist.read, delivered, ← textOf_typedReports, ← order]
    refine ⟨textOf_front (List.prefix_append _ _), fun empty => ?_⟩
    rw [empty, List.append_nil]

theorem script_arrives (mapped : Mapping) (plan : TypingPlan) (state : UsbState) (regs : UsbRegs)
    (lines : VicLines) (events : List TypistEvent) : ScriptArrives mapped plan
      ((Typist.boot plan (.reset state regs lines)).run mapped plan events) :=
  ((boot_tracks mapped plan state regs lines).run events).scriptArrives

end ZeeboLle.Linux
