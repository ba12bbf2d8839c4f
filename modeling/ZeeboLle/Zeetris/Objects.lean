import ZeeboLle.Zeetris.Runner
import ZeeboLle.Scheduling.Runs

/-! Objects and heap blocks of a session. File objects lie behind one another from their base on,
the seventeenth on top of the object of the graphics interface; blocks of the heap follow one
another without end. -/
namespace ZeeboLle.Zeetris

open Paging Unicorn Scheduling

inductive Request where
  | openFile (fname fileBytes : List Byte)
  | malloc (reqSz : Word)
deriving DecidableEq

/-- A runner, with the file objects and the heap blocks handed out so far. -/
structure Session where
  runner : Runner
  files : List Word
  blocks : List (Word × Word)

namespace Session

def start (mem : Memory) : Session := ⟨⟨mem, {}⟩, [], []⟩

def serve (session : Session) : Request → Session
  | .openFile fname fileBytes =>
    { session with
      runner := (openFile session.runner fname fileBytes).2
      files :=
        if fileBytes.isEmpty then session.files
        else session.files ++ [(openFile session.runner fname fileBytes).1] }
  | .malloc reqSz =>
    { session with
      runner := { session.runner with ctx := (hookMallocStub session.runner.ctx reqSz).2 }
      blocks := session.blocks ++ [((hookMallocStub session.runner.ctx reqSz).1, reqSz)] }

def run (mem : Memory) (requests : List Request) : Session := requests.foldl serve (start mem)

end Session

/-- The addresses of a heap block. -/
def blockRange (block : Word × Word) : Range := ⟨block.1.toNat, block.2.toNat⟩

/-- Within the heap. -/
def InHeap (range : Range) : Prop := heapBase.toNat ≤ range.base ∧ range.base + range.size ≤ appCtxVa.toNat

/-- No two objects overlap, and what `setup_and_start` wrote is still there. -/
structure NonOverlapping (mem : Memory) (session : Session) : Prop where
  files : session.files.Pairwise fun file other => (word file).Apart (word other)
  objects : ∀ file ∈ session.files, ∀ range ∈ created, (word file).Apart range
  kept : ∀ range ∈ created, ∀ address, range.Covers address →
    session.runner.mem.byteAt address = mem.byteAt address
  blocks : session.blocks.Pairwise fun block other => block.2 ≠ 0 → other.2 ≠ 0 →
    (blockRange block).Apart (blockRange other)
  heap : ∀ block ∈ session.blocks, block.2 ≠ 0 → InHeap (blockRange block)

def Request.opens : Request → Bool
  | .openFile _ fileBytes => !fileBytes.isEmpty
  | .malloc _ => false

def Request.size : Request → Option Word
  | .openFile _ _ => none
  | .malloc reqSz => some reqSz

/-- A size rounded up to eight bytes, without a bound. -/
def rounded (reqSz : Word) : Nat := (reqSz.toNat + 7) / 8 * 8

/-- A block still fits behind the earlier ones. -/
def Fits (before : List Word) (reqSz : Word) : Prop :=
  reqSz ≠ 0 → (before.map rounded).sum + reqSz.toNat ≤ 0xb000

/-- At most sixteen files, and a heap that holds all requests. -/
def WithinBounds (requests : List Request) : Prop :=
  requests.countP Request.opens ≤ 16 ∧ Throughout Fits (requests.filterMap Request.size)

variable {mem : Memory} {session : Session} {requests : List Request}

theorem toNat_alignedSz {reqSz : Word} (small : reqSz.toNat ≤ 0xb000) :
    (alignedSz reqSz).toNat = rounded reqSz := by
  have sum : (reqSz + 7).toNat = reqSz.toNat + 7 := by
    rw [BitVec.toNat_add, Nat.mod_eq_of_lt]
    · rfl
    · change reqSz.toNat + 7 < _
      omega
  have clear := toNat_clear_low (show 3 ≤ 32 by decide) (reqSz + 7)
  rw [sum] at clear
  exact clear

theorem le_rounded (reqSz : Word) : reqSz.toNat ≤ rounded reqSz := by
  unfold rounded
  omega

/-- Sizes rounded up stay below a multiple of eight that the sizes stay below. -/
theorem rounded_sum_le {before : List Word} {reqSz : Word}
    (below : (before.map rounded).sum + reqSz.toNat ≤ 0xb000) :
    (before.map rounded).sum + rounded reqSz ≤ 0xb000 := by
  have multiple : ∀ sizes : List Word, ∃ units, (sizes.map rounded).sum = 8 * units := by
    intro sizes
    induction sizes with
    | nil => exact ⟨0, rfl⟩
    | cons size sizes ih =>
      obtain ⟨units, total⟩ := ih
      refine ⟨(size.toNat + 7) / 8 + units, ?_⟩
      rw [List.map_cons, List.sum_cons, total, rounded]
      omega
  obtain ⟨units, total⟩ := multiple before
  rw [total] at below ⊢
  unfold rounded
  omega

/-- The heap after requests that fitted: full up to the sum of the rounded sizes. -/
structure FilledHeap (session : Session) (sizes : List Word) : Prop where
  filled : session.runner.ctx.heapPtr.toNat = heapBase.toNat + (sizes.map rounded).sum
  bounded : (sizes.map rounded).sum ≤ 0xb000
  below : ∀ block ∈ session.blocks, block.2 ≠ 0 →
    block.1.toNat + block.2.toNat ≤ heapBase.toNat + (sizes.map rounded).sum

/-- The blocks of a session lie apart inside the heap. -/
def BlocksApart (session : Session) : Prop :=
  (session.blocks.Pairwise fun block other => block.2 ≠ 0 → other.2 ≠ 0 →
    (blockRange block).Apart (blockRange other)) ∧
  ∀ block ∈ session.blocks, block.2 ≠ 0 → InHeap (blockRange block)

theorem blocksApart_malloc {sizes : List Word} {reqSz : Word} (heap : FilledHeap session sizes)
    (apart : BlocksApart session) :
    BlocksApart (session.serve (.malloc reqSz)) ↔ Fits sizes reqSz := by
  have base : heapBase.toNat + 0xb000 = appCtxVa.toNat := rfl
  have placed : (hookMallocStub session.runner.ctx reqSz).1.toNat =
      heapBase.toNat + (sizes.map rounded).sum := heap.filled
  constructor
  · intro after some
    have last := after.2 (session.runner.ctx.heapPtr, reqSz) (List.mem_append_right _ List.mem_cons_self) some
    have inside := last.2
    dsimp only [blockRange] at inside
    rw [heap.filled] at inside
    omega
  · intro fits
    refine ⟨List.pairwise_append.mpr ⟨apart.1, List.pairwise_singleton _ _, ?_⟩, ?_⟩
    · intro block member other last some _
      rw [List.mem_singleton.mp last]
      left
      have below := heap.below block member some
      dsimp only [blockRange]
      rw [placed]
      exact below
    · intro block member some
      rcases List.mem_append.mp member with early | last
      · exact apart.2 block early some
      · rw [List.mem_singleton.mp last] at some ⊢
        have room := fits some
        constructor
        · dsimp only [blockRange]
          rw [placed]
          omega
        · dsimp only [blockRange]
          rw [placed]
          omega

theorem FilledHeap.malloc {sizes : List Word} {reqSz : Word} (heap : FilledHeap session sizes)
    (fits : Fits sizes reqSz) : FilledHeap (session.serve (.malloc reqSz)) (sizes ++ [reqSz]) := by
  have total : ((sizes ++ [reqSz]).map rounded).sum = (sizes.map rounded).sum + rounded reqSz := by
    simp
  have room : (sizes.map rounded).sum + rounded reqSz ≤ 0xb000 := by
    by_cases none : reqSz = 0
    · rw [none]
      exact heap.bounded
    · exact rounded_sum_le (fits none)
  have small : reqSz.toNat ≤ 0xb000 := by
    have bound := le_rounded reqSz
    omega
  have start : heapBase.toNat = 0x30005000 := rfl
  refine ⟨?_, by rwa [total], ?_⟩
  · change (session.runner.ctx.heapPtr + alignedSz reqSz).toNat = _
    rw [BitVec.toNat_add, heap.filled, toNat_alignedSz small, total, Nat.mod_eq_of_lt (by omega)]
    omega
  · intro block member some
    rw [total]
    rcases List.mem_append.mp member with early | last
    · have below := heap.below block early some
      omega
    · rw [List.mem_singleton.mp last]
      have bound := le_rounded reqSz
      have placed : (hookMallocStub session.runner.ctx reqSz).1.toNat =
          heapBase.toNat + (sizes.map rounded).sum := heap.filled
      dsimp only
      rw [placed]
      omega

theorem heap_openFile (session : Session) (fname fileBytes : List Byte) :
    (session.serve (.openFile fname fileBytes)).blocks = session.blocks ∧
      (session.serve (.openFile fname fileBytes)).runner.ctx.heapPtr = session.runner.ctx.heapPtr := by
  refine ⟨rfl, ?_⟩
  change (openFile session.runner fname fileBytes).2.ctx.heapPtr = _
  unfold openFile
  split <;> rfl

theorem blocksApart_iff (mem : Memory) (requests : List Request) :
    (BlocksApart (Session.run mem requests) ↔ Throughout Fits (requests.filterMap Request.size)) ∧
      (Throughout Fits (requests.filterMap Request.size) →
        FilledHeap (Session.run mem requests) (requests.filterMap Request.size)) := by
  induction requests using List.reverseRecOn with
  | nil =>
    refine ⟨iff_of_true ⟨List.Pairwise.nil, by simp [Session.run, Session.start]⟩ throughout_nil, fun _ => ?_⟩
    exact ⟨rfl, by decide, by simp [Session.run, Session.start]⟩
  | append_singleton requests request ih =>
    obtain ⟨same, filled⟩ := ih
    have ran : Session.run mem (requests ++ [request]) = (Session.run mem requests).serve request :=
      List.foldl_concat ..
    rw [ran, List.filterMap_append]
    cases request with
    | openFile fname fileBytes =>
      obtain ⟨blocks, heapPtr⟩ := heap_openFile (Session.run mem requests) fname fileBytes
      have still : ∀ sizes : List Word, sizes ++ [Request.openFile fname fileBytes].filterMap Request.size =
          sizes := fun sizes => List.append_nil sizes
      rw [still]
      refine ⟨by rwa [BlocksApart, blocks], fun fits => ?_⟩
      have heap := filled fits
      exact ⟨by rw [heapPtr]; exact heap.filled, heap.bounded, by rw [blocks]; exact heap.below⟩
    | malloc reqSz =>
      have one : [Request.malloc reqSz].filterMap Request.size = [reqSz] := rfl
      rw [one, throughout_snoc]
      constructor
      · constructor
        · intro apart
          have earlier : BlocksApart (Session.run mem requests) :=
            ⟨(List.pairwise_append.mp apart.1).1, fun block member =>
              apart.2 block (List.mem_append_left _ member)⟩
          have fits := same.mp earlier
          exact ⟨fits, (blocksApart_malloc (filled fits) earlier).mp apart⟩
        · rintro ⟨fits, last⟩
          exact (blocksApart_malloc (filled fits) (same.mpr fits)).mpr last
      · rintro ⟨fits, last⟩
        exact (filled fits).malloc last

/-- The address of the file object of a number. -/
def fileObject (index : Nat) : Word := fileObjBaseVa + BitVec.ofNat 32 index * 0x100

theorem toNat_fileObject {index : Nat} (below : index ≤ 16) :
    (fileObject index).toNat = 0x60006000 + index * 0x100 := by
  unfold fileObject fileObjBaseVa
  rw [BitVec.toNat_add, BitVec.toNat_mul, BitVec.toNat_ofNat]
  change (0x60006000 + index % 2 ^ 32 * 0x100 % 2 ^ 32) % 2 ^ 32 = _
  omega

/-- The file objects of a session while the seventeenth was not asked for. -/
structure FirstFiles (session : Session) (count : Nat) : Prop where
  files : session.files = (List.range count).map fileObject
  keys : session.runner.ctx.openFiles.map Prod.fst = (List.range count).map fileObject

theorem FirstFiles.openFile_eq {count : Nat} (first : FirstFiles session count) {fname fileBytes : List Byte}
    (some : fileBytes.isEmpty = false) : openFile session.runner fname fileBytes = (fileObject count,
      { mem := writeBytes session.runner.mem (fileObject count).toNat (wordBytes fileVtblVa)
        ctx := session.runner.ctx.setFile (fileObject count) ⟨fname, fileBytes, 0⟩ }) := by
  have length : session.runner.ctx.openFiles.length = count := by
    have same := congrArg List.length first.keys
    simpa using same
  unfold openFile
  rw [some, length]
  rfl

theorem FirstFiles.serve {count : Nat} (first : FirstFiles session count) (few : count ≤ 16)
    (fname : List Byte) {fileBytes : List Byte} (some : fileBytes.isEmpty = false) :
    FirstFiles (session.serve (.openFile fname fileBytes)) (count + 1) := by
  have fresh : fileObject count ∉ session.runner.ctx.openFiles.map Prod.fst := by
    rw [first.keys]
    intro member
    obtain ⟨index, below, same⟩ := List.mem_map.mp member
    have lower := List.mem_range.mp below
    have equal := congrArg BitVec.toNat same
    rw [toNat_fileObject (by omega), toNat_fileObject few] at equal
    omega
  rw [Session.serve, first.openFile_eq some]
  constructor
  · simp [some, first.files, List.range_succ]
  · change (upsert Prod.fst _ session.runner.ctx.openFiles).map Prod.fst = _
    rw [map_key_upsert, if_neg fresh, first.keys, List.range_succ, List.map_append]
    rfl

theorem firstFiles_run (mem : Memory) (requests : List Request) :
    (requests.countP Request.opens ≤ 17 →
      FirstFiles (Session.run mem requests) (requests.countP Request.opens)) ∧
    (¬ requests.countP Request.opens ≤ 16 → iglObjVa ∈ (Session.run mem requests).files) := by
  induction requests using List.reverseRecOn with
  | nil => exact ⟨fun _ => ⟨rfl, rfl⟩, fun many => absurd (Nat.zero_le 16) many⟩
  | append_singleton requests request ih =>
    obtain ⟨first, late⟩ := ih
    have ran : Session.run mem (requests ++ [request]) = (Session.run mem requests).serve request :=
      List.foldl_concat ..
    rw [ran, List.countP_append, List.countP_singleton]
    cases request with
    | malloc reqSz =>
      exact ⟨fun few => ⟨(first few).files, (first few).keys⟩, late⟩
    | openFile fname fileBytes =>
      cases some : fileBytes.isEmpty with
      | true =>
        have still : (Session.run mem requests).serve (.openFile fname fileBytes) = Session.run mem requests := by
          unfold Session.serve openFile
          simp [some]
        have none : Request.opens (.openFile fname fileBytes) = false := by simp [Request.opens, some]
        rw [still, none]
        exact ⟨first, late⟩
      | false =>
        have opens : Request.opens (.openFile fname fileBytes) = true := by simp [Request.opens, some]
        rw [opens, if_pos rfl]
        constructor
        · intro few
          exact (first (by omega)).serve (by omega) fname some
        · intro many
          by_cases sixteen : requests.countP Request.opens = 16
          · have all := (first (by omega)).serve (by omega) fname some
            rw [sixteen] at all
            rw [all.files]
            exact List.mem_map.mpr ⟨16, List.mem_range.mpr (by decide), by decide⟩
          · have earlier := late (by omega)
            unfold Session.serve
            simp [some, earlier]

theorem created_gap : ∀ range ∈ created,
    range.base + range.size ≤ 0x60006000 ∨ 0x60007000 ≤ range.base := by decide

/-- The first sixteen file objects lie apart from all that was created. -/
theorem fileObject_apart {index : Nat} (few : index < 16) {range : Range} (member : range ∈ created) :
    (word (fileObject index)).Apart range := by
  have place := toNat_fileObject (Nat.le_of_lt few)
  have gap := created_gap range member
  unfold Range.Apart word
  rw [place]
  dsimp only
  omega

/-- Sixteen file objects leave what was created alone. -/
theorem kept_run (unshared : Unshared mem) (requests : List Request)
    (few : requests.countP Request.opens ≤ 16) :
    Unshared (Session.run mem requests).runner.mem ∧ ∀ range ∈ created, ∀ address, range.Covers address →
      (Session.run mem requests).runner.mem.byteAt address = mem.byteAt address := by
  induction requests using List.reverseRecOn with
  | nil => exact ⟨unshared, fun range _ address _ => rfl⟩
  | append_singleton requests request ih =>
    rw [List.countP_append, List.countP_singleton] at few
    obtain ⟨still, kept⟩ := ih (by omega)
    have ran : Session.run mem (requests ++ [request]) = (Session.run mem requests).serve request :=
      List.foldl_concat ..
    rw [ran]
    cases request with
    | malloc reqSz => exact ⟨still, kept⟩
    | openFile fname fileBytes =>
      cases some : fileBytes.isEmpty with
      | true =>
        rw [Session.serve, openFile, some]
        exact ⟨still, kept⟩
      | false =>
        have opens : Request.opens (.openFile fname fileBytes) = true := by simp [Request.opens, some]
        rw [opens, if_pos rfl] at few
        have first := (firstFiles_run mem requests).1 (by omega)
        rw [Session.serve, first.openFile_eq some]
        refine ⟨still.writeBytes _ _, fun range member address covers => ?_⟩
        have apart := fileObject_apart (show requests.countP Request.opens < 16 by omega) member
        have length : (wordBytes fileVtblVa).length = 4 := length_leBytes 4 _
        rw [still.byteAt_apart ?_, kept range member address covers]
        rw [length]
        unfold Range.Apart word at apart
        unfold Range.Covers at covers
        dsimp only at apart
        omega

/-- The objects and blocks of a session lie apart exactly within the bounds. -/
theorem nonOverlapping_iff (unshared : Unshared mem) (requests : List Request) :
    NonOverlapping mem (Session.run mem requests) ↔ WithinBounds requests := by
  obtain ⟨first, late⟩ := firstFiles_run mem requests
  have blocks := (blocksApart_iff mem requests).1
  constructor
  · intro apart
    refine ⟨?_, blocks.mp ⟨apart.blocks, apart.heap⟩⟩
    by_contra many
    have clash := apart.objects iglObjVa (late many) (word iglObjVa) (by decide)
    revert clash
    decide
  · rintro ⟨few, fits⟩
    obtain ⟨pairs, heap⟩ := blocks.mpr fits
    have files := (first (by omega)).files
    refine ⟨?_, ?_, (kept_run unshared requests few).2, pairs, heap⟩
    · rw [files, List.pairwise_map]
      refine List.pairwise_lt_range.imp_of_mem ?_
      intro index other member later below
      have lower := List.mem_range.mp member
      have upper := List.mem_range.mp later
      left
      unfold word
      rw [toNat_fileObject (by omega), toNat_fileObject (by omega)]
      dsimp only
      omega
    · intro file member range found
      rw [files] at member
      obtain ⟨index, below, rfl⟩ := List.mem_map.mp member
      exact fileObject_apart (Nat.lt_of_lt_of_le (List.mem_range.mp below) few) found

/-- The pages of the objects as the runner maps them. -/
def objectPages : Memory := (Memory.blank.ucMemMap 0x60000000 0x10000 .all).2

theorem nonOverlapping_iff_objectPages : Unshared objectPages ∧
    (NonOverlapping objectPages (Session.run objectPages [.openFile [0x61] [1], .malloc 20]) ↔
      WithinBounds [.openFile [0x61] [1], .malloc 20]) := by
  have unshared : Unshared objectPages := unshared_ucMemMap _ _ _
  exact ⟨unshared, nonOverlapping_iff unshared _⟩

/-- The seventeenth file object is the object of the graphics interface. -/
theorem not_nonOverlapping_seventeen : ¬ NonOverlapping objectPages
    (Session.run objectPages (List.replicate 17 (.openFile [0x61] [1]))) := by
  intro apart
  have seventeenth := (firstFiles_run objectPages (List.replicate 17 (.openFile [0x61] [1]))).2 (by decide)
  have clash := apart.objects iglObjVa seventeenth (word iglObjVa) (by decide)
  revert clash
  decide

end ZeeboLle.Zeetris
