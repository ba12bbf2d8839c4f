import ZeeboLle.Paging.Bytes
import ZeeboLle.Scheduling.Runs
import ZeeboLle.Unicorn.Memory

/-! The loaders of the two processor images, a list of program headers each. A read or a copy that
leaves the file has no value, so a load that has one stayed inside. -/
namespace ZeeboLle.Boot.Image

open Paging Scheduling Unicorn

def rd16 (p : List Byte) (o : Nat) : Option (BitVec 16) :=
  if o + 2 ≤ p.length then some (BitVec.ofNat 16 (fieldAt p o 2)) else none

def rd32 (p : List Byte) (o : Nat) : Option Word :=
  if o + 4 ≤ p.length then some (BitVec.ofNat 32 (fieldAt p o 4)) else none

/-- What a copy from the file takes; an empty one takes nothing. -/
def sourceAt (d : List Byte) (off fs : Word) : Option (List Byte) :=
  if fs = 0 ∨ off.toNat + fs.toNat ≤ d.length then some ((d.drop off.toNat).take fs.toNat) else none

def elfMagic : Word := 0x464c457f

def ptLoad : Word := 1

def rexRelocDelta : Word := 0xef600000

/-- The offset of a header, a 32-bit sum before it is widened. -/
def headerOffset (phoff : Word) (phent : BitVec 16) (i : Nat) : Nat :=
  (phoff + BitVec.ofNat 32 i * phent.setWidth 32).toNat

/-- The fields of a program header that both loaders read. -/
structure LoadHeader where
  va : Word
  pa : Word
  off : Word
  fs : Word
  ms : Word
deriving DecidableEq

def LoadHeader.read (d : List Byte) (o : Nat) : Option LoadHeader := do
  let va ← rd32 d (o + 8)
  let pa ← rd32 d (o + 12)
  let off ← rd32 d (o + 4)
  let fs ← rd32 d (o + 16)
  let ms ← rd32 d (o + 20)
  some ⟨va, pa, off, fs, ms⟩

def LoadHeader.nmem (header : LoadHeader) : Word := if header.ms ≠ 0 then header.ms else header.fs

/-- The entry point, the writes to the core's memory in order, and the executable ranges. -/
structure Loaded where
  entry : Word
  writes : List (Word × List Byte)
  execRanges : List (Word × Word)
deriving DecidableEq

/-- One round of the loop of `loadApps`. -/
def appsHeader (d : List Byte) (o : Nat) (loaded : Loaded) : Option Loaded := do
  let type ← rd32 d o
  if type ≠ ptLoad then some loaded
  else do
    let header ← LoadHeader.read d o
    let flg ← rd32 d (o + 24)
    if header.nmem = 0 then some loaded
    else do
      let execRanges :=
        if flg &&& 1 ≠ 0 ∧ header.va ≠ 0 then
          loaded.execRanges ++ [(header.va, header.va + header.nmem)]
        else loaded.execRanges
      let target := if header.pa ≠ 0 then header.pa else header.va
      let source ← sourceAt d header.off header.fs
      let atVa := if header.va ≠ 0 ∧ header.va ≠ target then [(header.va, source)] else []
      let atPa := if header.pa ≠ 0 ∧ header.pa ≠ target then [(header.pa, source)] else []
      some ⟨loaded.entry, loaded.writes ++ (target, source) :: atVa ++ atPa, execRanges⟩

/-- A file that is no ELF image is refused after its first word. -/
def loadApps (d : List Byte) : Option (Option Loaded) := do
  let magic ← rd32 d 0
  if magic ≠ elfMagic then some none
  else do
    let entry ← rd32 d 24
    let phoff ← rd32 d 28
    let phent ← rd16 d 42
    let phnum ← rd16 d 44
    let loaded ← (List.range phnum.toNat).foldlM
      (fun loaded i => appsHeader d (headerOffset phoff phent i) loaded) ⟨entry, [], []⟩
    some (some loaded)

/-- One round of the loop of `loadAmss`; the entry is a physical address until the header that
holds it is met. -/
def amssHeader (d : List Byte) (eEntry : Word) (o : Nat) (loaded : Loaded) : Option Loaded := do
  let type ← rd32 d o
  if type ≠ ptLoad then some loaded
  else do
    let header ← LoadHeader.read d o
    if header.nmem = 0 then some loaded
    else do
      let source ← sourceAt d header.off header.fs
      let atPa := if header.pa ≠ 0 ∧ header.pa ≠ header.va then [(header.pa, source)] else []
      let atMirror :=
        if header.va ≥ 0xf0000000 ∧ header.va < 0xf1000000 then
          [(header.va + rexRelocDelta, source)]
        else []
      let entry :=
        if header.pa ≠ 0 ∧ eEntry ≥ header.pa ∧ eEntry < header.pa + header.nmem then
          header.va + (eEntry - header.pa)
        else loaded.entry
      some ⟨entry, loaded.writes ++ (header.va, source) :: atPa ++ atMirror, loaded.execRanges⟩

def loadAmss (d : List Byte) : Option Loaded := do
  let eEntry ← rd32 d 24
  let phoff ← rd32 d 28
  let phent ← rd16 d 42
  let phnum ← rd16 d 44
  (List.range phnum.toNat).foldlM
    (fun loaded i => amssHeader d eEntry (headerOffset phoff phent i) loaded) ⟨eEntry, [], []⟩

def wordAt (d : List Byte) (o : Nat) : Word := BitVec.ofNat 32 (fieldAt d o 4)

def halfAt (d : List Byte) (o : Nat) : BitVec 16 := BitVec.ofNat 16 (fieldAt d o 2)

def LoadHeader.at (d : List Byte) (o : Nat) : LoadHeader :=
  ⟨wordAt d (o + 8), wordAt d (o + 12), wordAt d (o + 4), wordAt d (o + 16), wordAt d (o + 20)⟩

/-- The header's type lies in the file; so do the first bytes of one to load, and its source if it
has a size. -/
structure HeaderInside (d : List Byte) (size o : Nat) : Prop where
  type : o + 4 ≤ d.length
  fields : wordAt d o = ptLoad → o + size ≤ d.length
  source : wordAt d o = ptLoad → (LoadHeader.at d o).nmem ≠ 0 → (LoadHeader.at d o).fs ≠ 0 →
    (LoadHeader.at d o).off.toNat + (LoadHeader.at d o).fs.toNat ≤ d.length

/-- The file header lies in the file, and every program header does. -/
structure ImageInside (d : List Byte) (size : Nat) : Prop where
  header : 46 ≤ d.length
  headers : ∀ i, i < (halfAt d 44).toNat →
    HeaderInside d size (headerOffset (wordAt d 28) (halfAt d 42) i)

variable {d : List Byte} {o : Nat}

theorem rd32_eq (inside : o + 4 ≤ d.length) : rd32 d o = some (wordAt d o) := if_pos inside

theorem rd16_eq (inside : o + 2 ≤ d.length) : rd16 d o = some (halfAt d o) := if_pos inside

theorem rd32_none (outside : ¬o + 4 ≤ d.length) : rd32 d o = none := if_neg outside

theorem rd16_none (outside : ¬o + 2 ≤ d.length) : rd16 d o = none := if_neg outside

theorem LoadHeader.read_eq (inside : o + 24 ≤ d.length) :
    LoadHeader.read d o = some (LoadHeader.at d o) := by
  rw [LoadHeader.read, rd32_eq (by omega), rd32_eq (by omega), rd32_eq (by omega), rd32_eq (by omega),
    rd32_eq (by omega)]
  rfl

theorem LoadHeader.read_none (outside : ¬o + 24 ≤ d.length) : LoadHeader.read d o = none := by
  rw [LoadHeader.read, rd32_none (show ¬o + 20 + 4 ≤ d.length by omega)]
  simp

theorem sourceAt_ne_none_iff (d : List Byte) (off fs : Word) :
    sourceAt d off fs ≠ none ↔ (fs ≠ 0 → off.toNat + fs.toNat ≤ d.length) := by
  rw [sourceAt]
  split
  · rename_i inside
    simpa [imp_iff_not_or] using inside
  · rename_i outside
    simpa [imp_iff_not_or] using outside

/-- A round needs the type of its header, and the rest of one to load. -/
theorem round_ne_none_iff {size : Nat} (loaded : Loaded) (rest : Option Loaded)
    (each : wordAt d o = ptLoad → (rest ≠ none ↔ o + size ≤ d.length ∧
      ((LoadHeader.at d o).nmem ≠ 0 → (LoadHeader.at d o).fs ≠ 0 →
        (LoadHeader.at d o).off.toNat + (LoadHeader.at d o).fs.toNat ≤ d.length))) :
    ((rd32 d o).bind fun type => if type ≠ ptLoad then some loaded else rest) ≠ none ↔
      HeaderInside d size o := by
  by_cases type : o + 4 ≤ d.length
  swap
  · rw [rd32_none type]
    exact iff_of_false (fun some => some rfl) fun inside => type inside.type
  rw [rd32_eq type, Option.bind_some]
  by_cases load : wordAt d o = ptLoad
  · rw [if_neg (not_not_intro load), each load]
    constructor
    · rintro ⟨fields, source⟩
      exact ⟨type, fun _ => fields, fun _ => source⟩
    · intro inside
      exact ⟨inside.fields load, inside.source load⟩
  · rw [if_pos load]
    exact iff_of_true (Option.some_ne_none _)
      ⟨type, fun equal => absurd equal load, fun equal => absurd equal load⟩

/-- The copy of a header that has a size needs its source. -/
theorem sized_ne_none_iff (d : List Byte) (header : LoadHeader) (loaded : Loaded)
    (next : List Byte → Loaded) :
    (if header.nmem = 0 then some loaded
      else (sourceAt d header.off header.fs).bind fun source => some (next source)) ≠ none ↔
      (header.nmem ≠ 0 → header.fs ≠ 0 → header.off.toNat + header.fs.toNat ≤ d.length) := by
  by_cases empty : header.nmem = 0
  · rw [if_pos empty]
    exact iff_of_true (Option.some_ne_none _) fun sized => absurd empty sized
  · rw [if_neg empty, ← sourceAt_ne_none_iff]
    cases sourceAt d header.off header.fs with
    | none => exact iff_of_false (fun some => some rfl) fun some => some empty rfl
    | some source => exact iff_of_true (Option.some_ne_none _) fun _ => Option.some_ne_none _

theorem appsHeader_ne_none_iff (d : List Byte) (o : Nat) (loaded : Loaded) :
    appsHeader d o loaded ≠ none ↔ HeaderInside d 28 o := by
  refine round_ne_none_iff loaded _ fun _ => ?_
  by_cases fields : o + 28 ≤ d.length
  · rw [LoadHeader.read_eq (by omega), rd32_eq (by omega)]
    exact (sized_ne_none_iff d (LoadHeader.at d o) loaded _).trans (and_iff_right fields).symm
  · rw [rd32_none (show ¬o + 24 + 4 ≤ d.length by omega)]
    exact iff_of_false (by simp) fun inside => fields inside.1

theorem amssHeader_ne_none_iff (d : List Byte) (eEntry : Word) (o : Nat) (loaded : Loaded) :
    amssHeader d eEntry o loaded ≠ none ↔ HeaderInside d 24 o := by
  refine round_ne_none_iff loaded _ fun _ => ?_
  by_cases fields : o + 24 ≤ d.length
  · rw [LoadHeader.read_eq fields]
    exact (sized_ne_none_iff d (LoadHeader.at d o) loaded _).trans (and_iff_right fields).symm
  · rw [LoadHeader.read_none fields]
    exact iff_of_false (by simp) fun inside => fields inside.1

/-- Both loaders read the same file header. -/
theorem imageInside_iff {size : Nat} (header : 46 ≤ d.length) :
    ImageInside d size ↔ ∀ i ∈ List.range (halfAt d 44).toNat,
      HeaderInside d size (headerOffset (wordAt d 28) (halfAt d 42) i) := by
  constructor
  · intro inside i member
    exact inside.headers i (List.mem_range.mp member)
  · intro headers
    exact ⟨header, fun i before => headers i (List.mem_range.mpr before)⟩

theorem loadAmss_ne_none_iff (d : List Byte) : loadAmss d ≠ none ↔ ImageInside d 24 := by
  by_cases header : 46 ≤ d.length
  · rw [loadAmss, rd32_eq (by omega), rd32_eq (by omega), rd16_eq (by omega), rd16_eq (by omega),
      imageInside_iff header]
    exact foldlM_ne_none_iff (fun loaded i => amssHeader_ne_none_iff d (wordAt d 24)
      (headerOffset (wordAt d 28) (halfAt d 42) i) loaded) (List.range (halfAt d 44).toNat)
      ⟨wordAt d 24, [], []⟩
  · rw [loadAmss, rd16_none (show ¬44 + 2 ≤ d.length by omega)]
    exact iff_of_false (by simp) fun inside => header inside.header

theorem loadApps_ne_none_iff (d : List Byte) :
    loadApps d ≠ none ↔ 4 ≤ d.length ∧ (wordAt d 0 = elfMagic → ImageInside d 28) := by
  by_cases first : 4 ≤ d.length
  swap
  · rw [loadApps, rd32_none (by omega)]
    exact iff_of_false (fun some => some rfl) fun inside => first inside.1
  rw [loadApps, rd32_eq (by omega), Option.bind_eq_bind, Option.bind_some]
  by_cases magic : wordAt d 0 = elfMagic
  swap
  · rw [if_pos magic]
    exact iff_of_true (Option.some_ne_none _) ⟨first, fun elf => absurd elf magic⟩
  rw [if_neg (not_not_intro magic)]
  by_cases header : 46 ≤ d.length
  · rw [rd32_eq (by omega), rd32_eq (by omega), rd16_eq (by omega), rd16_eq (by omega),
      imageInside_iff header]
    have rounds := foldlM_ne_none_iff (fun loaded i => appsHeader_ne_none_iff d
      (headerOffset (wordAt d 28) (halfAt d 42) i) loaded) (List.range (halfAt d 44).toNat)
      ⟨wordAt d 24, [], []⟩
    simp only [Option.bind_eq_bind, Option.bind_some]
    rw [← rounds]
    cases List.foldlM (fun loaded i => appsHeader d (headerOffset (wordAt d 28) (halfAt d 42) i) loaded)
      ⟨wordAt d 24, [], []⟩ (List.range (halfAt d 44).toNat) with
    | none => exact iff_of_false (fun some => some rfl) fun inside => inside.2 magic rfl
    | some loaded =>
      exact iff_of_true (Option.some_ne_none _) ⟨first, fun _ => Option.some_ne_none _⟩
  · rw [rd16_none (show ¬44 + 2 ≤ d.length by omega)]
    exact iff_of_false (by simp) fun inside => header (inside.2 magic).header

/-- The loaders stay inside the file exactly if its headers, and the sources of its segments, do. -/
theorem loads_inside_iff (d : List Byte) :
    (loadApps d ≠ none ↔ 4 ≤ d.length ∧ (wordAt d 0 = elfMagic → ImageInside d 28)) ∧
      (loadAmss d ≠ none ↔ ImageInside d 24) :=
  ⟨loadApps_ne_none_iff d, loadAmss_ne_none_iff d⟩

/-- Of a file that ends after its magic number both loaders read the entry point. -/
theorem loads_outside :
    loadApps [0x7f, 0x45, 0x4c, 0x46] = none ∧ loadAmss [0x7f, 0x45, 0x4c, 0x46] = none := by
  decide

end ZeeboLle.Boot.Image
