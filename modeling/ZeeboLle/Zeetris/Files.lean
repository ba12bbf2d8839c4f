import ZeeboLle.Streams.Cursor
import ZeeboLle.Scheduling.Transducers
import ZeeboLle.Zeetris.Runner

/-! Reads and seeks of the game's files. Each handle is a cursor in the content of its file, and
no call moves the cursor of another. -/
namespace ZeeboLle.Zeetris

open Paging Unicorn Streams Scheduling

inductive FileCall where
  | read (handle pDest nWant : Word)
  | seek (handle seekType dist : Word)
deriving DecidableEq

namespace FileCall

def handle : FileCall → Word
  | .read handle _ _ => handle
  | .seek handle _ _ => handle

/-- The answer of a call, and the runner afterwards. -/
def perform (runner : Runner) : FileCall → Word × Runner
  | .read handle pDest nWant => fileRead runner handle pDest nWant
  | .seek handle seekType dist => fileSeek runner handle seekType dist

/-- The bytes that a call put at its destination, as memory holds them afterwards. -/
def placed (runner : Runner) (call : FileCall) : List Byte :=
  match call with
  | .read _ pDest _ =>
    ((call.perform runner).2.mem.ucMemRead pDest.toNat (call.perform runner).1.toNat).getD []
  | .seek _ _ _ => []

/-- One call, putting out the bytes it placed under its handle. -/
def step (runner : Runner) (call : FileCall) : Runner × List (Word × Byte) :=
  ((call.perform runner).2, (call.placed runner).map (call.handle, ·))

end FileCall

/-- The cursor of an open file. -/
def OpenFileInfo.cursor (file : OpenFileInfo) : Cursor Byte where
  content := file.data
  place := min file.position.toNat file.data.length
  inside := Nat.min_le_right _ _

/-- The cursors of the open files. -/
def ZeetrisContext.cursors (ctx : ZeetrisContext) (handle : Word) : Option (Cursor Byte) :=
  (ctx.fileOf handle).map OpenFileInfo.cursor

/-- Files shorter than 2^31 bytes, each with its position inside. -/
def ZeetrisContext.Placed (ctx : ZeetrisContext) : Prop :=
  ∀ handle file, ctx.fileOf handle = some file →
    file.data.length < 2 ^ 31 ∧ file.position.toNat ≤ file.data.length

/-- A read goes to a nonzero address, into mapped memory. -/
def FileCall.Mapped (runner : Runner) : FileCall → Prop
  | .read handle pDest nWant => pDest ≠ 0 ∧ ∀ cursor, runner.ctx.cursors handle = some cursor →
    runner.mem.backed pDest.toNat (cursor.read nWant.toNat).length = true
  | .seek _ _ _ => True

/-- Where a seek should lead: its base and distance; nowhere for another type. -/
def seekGoal (cursor : Cursor Byte) (seekType dist : Word) : Int :=
  if seekType = seekStart then 0 + dist.toInt
  else if seekType = seekEnd then cursor.content.length + dist.toInt
  else if seekType = seekCurrent then cursor.place + dist.toInt
  else cursor.place

/-- What a call should do: a read answers how much was left and wanted, places exactly these
bytes and moves on behind them; a seek moves to its base and distance, stopping at both ends.
Neither touches another file. -/
def FileCall.Law (runner : Runner) (call : FileCall) : Prop :=
  (∀ other, other ≠ call.handle → (call.perform runner).2.ctx.fileOf other = runner.ctx.fileOf other) ∧
  ∀ cursor, runner.ctx.cursors call.handle = some cursor →
    match call with
    | .read handle pDest nWant =>
      (call.perform runner).1.toNat = min nWant.toNat (cursor.content.length - cursor.place) ∧
      (call.perform runner).2.mem.ucMemRead pDest.toNat (call.perform runner).1.toNat =
        some ((cursor.content.drop cursor.place).take (call.perform runner).1.toNat) ∧
      (∀ address, address < pDest.toNat ∨ pDest.toNat + (call.perform runner).1.toNat ≤ address →
        (call.perform runner).2.mem.byteAt address = runner.mem.byteAt address) ∧
      (call.perform runner).2.ctx.cursors handle = some (cursor.pass nWant.toNat)
    | .seek handle seekType dist =>
      (call.perform runner).2.ctx.cursors handle =
        some (cursor.seek (seekGoal cursor seekType dist))

/-- What the reads of a handle placed, one after the other. -/
def delivered (runner : Runner) (handle : Word) (calls : List FileCall) : List Byte :=
  ((transduce FileCall.step runner calls).2.filter fun output => output.1 = handle).map Prod.snd

/-- What the reads of a handle asked for. -/
def requested (handle : Word) : List FileCall → Nat
  | [] => 0
  | .read other _ nWant :: rest => (if other = handle then nWant.toNat else 0) + requested handle rest
  | .seek _ _ _ :: rest => requested handle rest

variable {runner : Runner} {handle : Word} {file : OpenFileInfo} {call : FileCall} {calls : List FileCall}

theorem cursor_place (within : file.position.toNat ≤ file.data.length) :
    file.cursor.place = file.position.toNat := Nat.min_eq_left within

/-- How much a read returns, and that it moves the position by as much. -/
theorem length_read_cursor (within : file.position.toNat ≤ file.data.length) (nWant : Word) :
    (file.cursor.read nWant.toNat).length = min nWant.toNat (file.data.length - file.position.toNat) := by
  rw [Cursor.length_read, cursor_place within]
  rfl

theorem toNat_length_read (within : file.position.toNat ≤ file.data.length) (nWant : Word) :
    (BitVec.ofNat 32 (file.cursor.read nWant.toNat).length).toNat =
      (file.cursor.read nWant.toNat).length := by
  have wanted := nWant.isLt
  rw [BitVec.toNat_ofNat, Nat.mod_eq_of_lt]
  rw [length_read_cursor within]
  omega

theorem writeBytes_nil (mem : Memory) (start : Nat) : writeBytes mem start [] = mem := by
  unfold writeBytes Memory.ucMemWrite
  split <;> rfl

/-- A read of an open file into a destination. -/
theorem fileRead_open (found : runner.ctx.fileOf handle = some file) {pDest : Word} (dest : pDest ≠ 0)
    (nWant : Word) (within : file.position.toNat ≤ file.data.length) :
    ∃ ctx, fileRead runner handle pDest nWant =
        (BitVec.ofNat 32 (file.cursor.read nWant.toNat).length,
          ⟨writeBytes runner.mem pDest.toNat (file.cursor.read nWant.toNat), ctx⟩) ∧
      ∀ other, ctx.fileOf other = if handle = other then
        some { file with position := file.position + BitVec.ofNat 32 (file.cursor.read nWant.toNat).length }
        else runner.ctx.fileOf other := by
  have amount := length_read_cursor within nWant
  have exact_ := toNat_length_read within nWant
  unfold fileRead
  rw [found]
  dsimp only
  rw [if_neg dest]
  by_cases left : file.position.toNat < file.data.length
  · have bytes : (file.data.drop file.position.toNat).take
        (BitVec.ofNat 32 (min nWant.toNat (file.data.length - file.position.toNat))).toNat =
          file.cursor.read nWant.toNat := by
      rw [← amount, exact_, ← cursor_place within]
      exact file.cursor.take_length_read nWant.toNat
    rw [if_pos left, bytes, amount]
    exact ⟨_, rfl, fun other => ZeetrisContext.fileOf_setFile⟩
  · have none : file.cursor.read nWant.toNat = [] := by
      apply List.eq_nil_of_length_eq_zero
      rw [amount]
      omega
    rw [if_neg left, none, writeBytes_nil]
    refine ⟨runner.ctx, rfl, fun other => ?_⟩
    split
    · rename_i same
      rw [← same, found]
      simp
    · rfl

/-- After a read the position is where the read ended. -/
theorem cursor_after_read (short : file.data.length < 2 ^ 31)
    (within : file.position.toNat ≤ file.data.length) (nWant : Word) :
    let moved := { file with
      position := file.position + BitVec.ofNat 32 (file.cursor.read nWant.toNat).length }
    moved.position.toNat ≤ moved.data.length ∧ moved.cursor = file.cursor.pass nWant.toNat := by
  have amount := length_read_cursor within nWant
  have place := file.cursor.place_pass nWant.toNat
  have inside := (file.cursor.pass nWant.toNat).inside
  have position : (file.position + BitVec.ofNat 32 (file.cursor.read nWant.toNat).length).toNat =
      (file.cursor.pass nWant.toNat).place := by
    rw [BitVec.toNat_add, toNat_length_read within, place, cursor_place within, Nat.mod_eq_of_lt]
    omega
  have low : (file.cursor.pass nWant.toNat).place ≤ file.data.length := inside
  constructor
  · rw [position]
    exact low
  · refine Cursor.ext rfl ?_
    change min _ _ = _
    rw [position]
    exact Nat.min_eq_left low

/-- A seek of an open file. -/
theorem fileSeek_open (found : runner.ctx.fileOf handle = some file) (short : file.data.length < 2 ^ 31)
    (within : file.position.toNat ≤ file.data.length) (seekType dist : Word) :
    ∃ moved, fileSeek runner handle seekType dist =
        (0, { runner with ctx := runner.ctx.setFile handle moved }) ∧
      moved.data = file.data ∧ moved.position.toNat ≤ file.data.length ∧
      moved.cursor = file.cursor.seek (seekGoal file.cursor seekType dist) := by
  have target : seekTarget file seekType dist = seekGoal file.cursor seekType dist := by
    unfold seekTarget seekGoal
    rw [cursor_place within, Int.zero_add]
    rfl
  have clamped (wanted : Int) : (if (if wanted < 0 then 0 else wanted) > (file.data.length : Int) then
      (file.data.length : Int) else if wanted < 0 then 0 else wanted) =
        max 0 (min wanted file.data.length) := by
    split_ifs <;> omega
  have position : (BitVec.ofInt 32 (max 0 (min (seekTarget file seekType dist) file.data.length))).toNat =
      (file.cursor.seek (seekGoal file.cursor seekType dist)).place := by
    rw [target, BitVec.toNat_ofInt]
    change _ = (max 0 (min (seekGoal file.cursor seekType dist) (file.data.length : Int))).toNat
    rw [Int.emod_eq_of_lt (Int.le_max_left _ _)]
    omega
  have inside : (file.cursor.seek (seekGoal file.cursor seekType dist)).place ≤ file.data.length :=
    (file.cursor.seek _).inside
  refine ⟨{ file with
    position := BitVec.ofInt 32 (max 0 (min (seekTarget file seekType dist) file.data.length)) }, ?_, rfl, ?_, ?_⟩
  · unfold fileSeek
    rw [found]
    dsimp only
    rw [clamped]
  · rw [position]
    exact inside
  · refine Cursor.ext rfl ?_
    change min _ _ = _
    rw [position]
    exact Nat.min_eq_left inside

/-- A call on an unknown handle changes nothing. -/
theorem perform_unknown (call : FileCall) (missing : runner.ctx.fileOf call.handle = none) :
    call.perform runner = (0, runner) := by
  cases call with
  | read handle pDest nWant =>
    have none : runner.ctx.fileOf handle = none := missing
    rw [FileCall.perform, fileRead, none]
  | seek handle seekType dist =>
    have none : runner.ctx.fileOf handle = none := missing
    rw [FileCall.perform, fileSeek, none]

theorem ZeetrisContext.cursors_open {ctx : ZeetrisContext} (found : ctx.fileOf handle = some file) :
    ctx.cursors handle = some file.cursor := by
  rw [ZeetrisContext.cursors, found]
  rfl

/-- A position that stays inside its file leaves them all inside. -/
theorem ZeetrisContext.Placed.update {ctx after : ZeetrisContext} {info : OpenFileInfo}
    (placed : ctx.Placed) (files : ∀ other, after.fileOf other =
      if handle = other then some info else ctx.fileOf other)
    (short : info.data.length < 2 ^ 31) (inside : info.position.toNat ≤ info.data.length) :
    after.Placed := by
  intro other held found
  rw [files] at found
  split at found
  · rw [← Option.some.inj found]
    exact ⟨short, inside⟩
  · exact placed other held found

theorem fileRead_law (unshared : Unshared runner.mem) (placed : runner.ctx.Placed)
    (found : runner.ctx.fileOf handle = some file) {pDest nWant : Word}
    (mapped : (FileCall.read handle pDest nWant).Mapped runner) :
    (FileCall.read handle pDest nWant).Law runner ∧
      Unshared ((FileCall.read handle pDest nWant).perform runner).2.mem ∧
      ((FileCall.read handle pDest nWant).perform runner).2.ctx.Placed := by
  obtain ⟨short, within⟩ := placed _ file found
  have cursors := ZeetrisContext.cursors_open found
  obtain ⟨dest, room⟩ := mapped
  have backed := room file.cursor cursors
  obtain ⟨ctx, performed, files⟩ := fileRead_open found dest nWant within
  obtain ⟨inside, passed⟩ := cursor_after_read short within nWant
  have amount := toNat_length_read within nWant
  have after : (FileCall.read handle pDest nWant).perform runner =
    (BitVec.ofNat 32 (file.cursor.read nWant.toNat).length,
      ⟨writeBytes runner.mem pDest.toNat (file.cursor.read nWant.toNat), ctx⟩) := performed
  refine ⟨⟨fun other apart => ?_, fun cursor open_ => ?_⟩, ?_, ?_⟩
  · rw [after]
    exact (files other).trans (if_neg (Ne.symm apart))
  · obtain rfl := Option.some.inj (cursors.symm.trans open_)
    dsimp only
    rw [after]
    dsimp only
    rw [amount]
    refine ⟨Cursor.length_read _ _, ?_, fun address apart => ?_, ?_⟩
    · rw [(unshared.sees backed).ucMemRead _ _ (Memory.backed_iff.mp backed), segment_patch,
        Cursor.take_length_read]
    · exact unshared.byteAt_apart apart
    · rw [ZeetrisContext.cursors, (files handle).trans (if_pos rfl), Option.map_some, passed]
  · rw [after]
    exact unshared.writeBytes _ _
  · rw [after]
    exact placed.update files short inside

theorem fileSeek_law (unshared : Unshared runner.mem) (placed : runner.ctx.Placed)
    (found : runner.ctx.fileOf handle = some file) (seekType dist : Word) :
    (FileCall.seek handle seekType dist).Law runner ∧
      Unshared ((FileCall.seek handle seekType dist).perform runner).2.mem ∧
      ((FileCall.seek handle seekType dist).perform runner).2.ctx.Placed := by
  obtain ⟨short, within⟩ := placed _ file found
  have cursors := ZeetrisContext.cursors_open found
  obtain ⟨moved, performed, data, inside, goal⟩ := fileSeek_open found short within seekType dist
  have after : (FileCall.seek handle seekType dist).perform runner =
    (0, { runner with ctx := runner.ctx.setFile handle moved }) := performed
  refine ⟨⟨fun other apart => ?_, fun cursor open_ => ?_⟩, ?_, ?_⟩
  · rw [after]
    exact ZeetrisContext.fileOf_setFile.trans (if_neg (Ne.symm apart))
  · obtain rfl := Option.some.inj (cursors.symm.trans open_)
    have shown : (runner.ctx.setFile handle moved).cursors handle =
        some (file.cursor.seek (seekGoal file.cursor seekType dist)) := by
      rw [ZeetrisContext.cursors, ZeetrisContext.fileOf_setFile, if_pos rfl, Option.map_some, goal]
    dsimp only
    rw [after]
    exact shown
  · rw [after]
    exact unshared
  · rw [after]
    exact placed.update (fun _ => ZeetrisContext.fileOf_setFile) (data ▸ short) (data ▸ inside)

/-- Each call keeps the law, and leaves memory unshared and the positions inside. -/
theorem perform_law (unshared : Unshared runner.mem) (placed : runner.ctx.Placed) (call : FileCall)
    (mapped : call.Mapped runner) :
    call.Law runner ∧ Unshared (call.perform runner).2.mem ∧ (call.perform runner).2.ctx.Placed := by
  cases found : runner.ctx.fileOf call.handle with
  | none =>
    rw [perform_unknown call found]
    refine ⟨⟨fun other _ => by rw [perform_unknown call found], fun cursor open_ => ?_⟩, unshared, placed⟩
    rw [ZeetrisContext.cursors, found] at open_
    cases open_
  | some file =>
    cases call with
    | read handle pDest nWant => exact fileRead_law unshared placed found mapped
    | seek handle seekType dist => exact fileSeek_law unshared placed found seekType dist

theorem delivered_cons (runner : Runner) (handle : Word) (call : FileCall) (rest : List FileCall) :
    delivered runner handle (call :: rest) = (if call.handle = handle then call.placed runner else []) ++
      delivered (call.perform runner).2 handle rest := by
  have own : (((call.placed runner).map (call.handle, ·)).filter fun output => output.1 = handle).map
      Prod.snd = if call.handle = handle then call.placed runner else [] := by
    generalize call.placed runner = bytes
    split
    · rename_i same
      induction bytes with
      | nil => rfl
      | cons byte bytes ih => simpa [same] using ih
    · rename_i apart
      induction bytes with
      | nil => rfl
      | cons byte bytes ih => simp [apart]
  rw [delivered, transduce_cons, List.filter_append, List.map_append, ← own]
  rfl

/-- Whatever is interleaved, the reads of a handle that is not sought deliver its content in
order. -/
theorem delivered_eq (unshared : Unshared runner.mem) (placed : runner.ctx.Placed) {cursor : Cursor Byte}
    (found : runner.ctx.cursors handle = some cursor)
    (mapped : AtEach FileCall.step FileCall.Mapped runner calls)
    (unsought : ∀ seekType dist, FileCall.seek handle seekType dist ∉ calls) :
    delivered runner handle calls = cursor.read (requested handle calls) := by
  induction calls generalizing runner cursor with
  | nil => exact (Cursor.read_zero cursor).symm
  | cons call rest ih =>
    obtain ⟨here, later⟩ := mapped
    obtain ⟨⟨others, own⟩, unshared', placed'⟩ := perform_law unshared placed call here
    have quiet : ∀ seekType dist, FileCall.seek handle seekType dist ∉ rest :=
      fun seekType dist member => unsought seekType dist (List.mem_cons_of_mem _ member)
    rw [delivered_cons]
    by_cases same : call.handle = handle
    · rw [if_pos same]
      cases call with
      | seek other seekType dist =>
        obtain rfl : other = handle := same
        exact absurd List.mem_cons_self (unsought seekType dist)
      | read other pDest nWant =>
        obtain rfl : other = handle := same
        obtain ⟨answer, bytes, _, moved⟩ := own cursor found
        rw [ih unshared' placed' moved later quiet, FileCall.placed, bytes, answer, requested, if_pos rfl,
          Cursor.read_add, ← Cursor.length_read, Cursor.take_length_read]
        rfl
    · have still : (call.perform runner).2.ctx.cursors handle = some cursor := by
        rw [ZeetrisContext.cursors, others handle (Ne.symm same)]
        exact found
      rw [if_neg same, List.nil_append, ih unshared' placed' still later quiet]
      cases call with
      | seek other seekType dist => rfl
      | read other pDest nWant =>
        have apart : ¬ other = handle := same
        rw [requested, if_neg apart, Nat.zero_add]

/-- Files behave as files on every run of reads and seeks. -/
theorem files_law (unshared : Unshared runner.mem) (placed : runner.ctx.Placed)
    (mapped : AtEach FileCall.step FileCall.Mapped runner calls) :
    AtEach FileCall.step FileCall.Law runner calls ∧
      AtEach FileCall.step (fun runner call => (call.perform runner).2.ctx.Placed) runner calls ∧
      ∀ handle cursor, runner.ctx.cursors handle = some cursor →
        (∀ seekType dist, FileCall.seek handle seekType dist ∉ calls) →
          delivered runner handle calls = cursor.read (requested handle calls) := by
  refine ⟨?_, ?_, fun handle cursor found unsought => delivered_eq unshared placed found mapped unsought⟩
  · induction calls generalizing runner with
    | nil => trivial
    | cons call rest ih =>
      obtain ⟨law, unshared', placed'⟩ := perform_law unshared placed call mapped.1
      exact ⟨law, ih unshared' placed' mapped.2⟩
  · induction calls generalizing runner with
    | nil => trivial
    | cons call rest ih =>
      obtain ⟨_, unshared', placed'⟩ := perform_law unshared placed call mapped.1
      exact ⟨placed', ih unshared' placed' mapped.2⟩

/-- A runner with one file of three bytes and one page of memory. -/
def oneFile : Runner :=
  ⟨(Memory.blank.ucMemMap 0x30000000 0x1000 .all).2, { openFiles := [(0x60006000, ⟨[], [1, 2, 3], 1⟩)] }⟩

theorem files_law_oneFile :
    AtEach FileCall.step FileCall.Law oneFile [.read 0x60006000 0x30000000 8, .seek 0x60006000 2 0xffffffff] ∧
      AtEach FileCall.step (fun runner call => (call.perform runner).2.ctx.Placed) oneFile
        [.read 0x60006000 0x30000000 8, .seek 0x60006000 2 0xffffffff] ∧
      ∀ handle cursor, oneFile.ctx.cursors handle = some cursor →
        (∀ seekType dist, FileCall.seek handle seekType dist ∉
          [.read 0x60006000 0x30000000 8, .seek 0x60006000 2 0xffffffff]) →
          delivered oneFile handle [.read 0x60006000 0x30000000 8, .seek 0x60006000 2 0xffffffff] =
            cursor.read (requested handle [.read 0x60006000 0x30000000 8, .seek 0x60006000 2 0xffffffff]) := by
  refine files_law (unshared_ucMemMap _ _ _) ?_ ⟨⟨by decide, fun cursor found => ?_⟩, trivial, trivial⟩
  · intro handle file found
    unfold ZeetrisContext.fileOf oneFile at found
    obtain ⟨entry, member, rfl⟩ := Option.map_eq_some_iff.mp found
    have only := List.mem_singleton.mp (List.mem_of_find?_eq_some member)
    rw [only]
    decide
  · have only : oneFile.ctx.cursors 0x60006000 = some ⟨[1, 2, 3], 1, by decide⟩ := rfl
    rw [only] at found
    rw [← Option.some.inj found]
    decide

end ZeeboLle.Zeetris
