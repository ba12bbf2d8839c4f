import ZeeboLle.Efs2.Dirents
import ZeeboLle.Paging.KeyedList
import Mathlib.Data.List.TakeWhile

/-! The indexes over scanned directory records, and the payload of a file by its indirect block.
A partition is what one file holds from an offset on; a read outside it has no value. -/
namespace ZeeboLle.Efs2

open Paging Unicorn

def clusterSize : Nat := 512

def clusterNone : Word := 0xffffffff

def Dirent.parentInode (dirent : Dirent) : Word := dirent.parentRef >>> 8

def key (parentInode : Word) (name : List Byte) : List Byte :=
  leBytes 4 parentInode.toNat ++ 0x3a :: name

/-- The records in order, and the places of each in the two indexes. -/
structure Scanned where
  dirents : List Dirent
  byKey : List (List Byte × Nat)
  byInode : List (Word × Nat)

namespace Scanned

def empty : Scanned := ⟨[], [], []⟩

def push (scanned : Scanned) (dirent : Dirent) : Scanned where
  dirents := scanned.dirents ++ [dirent]
  byKey := upsert Prod.fst (key dirent.parentInode dirent.name, scanned.dirents.length) scanned.byKey
  byInode := scanned.byInode ++ [(dirent.inode, scanned.dirents.length)]

/-- The record at a place of an index; a place that is none has no value. -/
def at? (scanned : Scanned) : Option Nat → Option (Option Dirent)
  | none => some none
  | some idx => scanned.dirents[idx]?.map some

def find (scanned : Scanned) (parentInode : Word) (name : List Byte) : Option (Option Dirent) :=
  scanned.at? ((scanned.byKey.find? fun entry => entry.1 = key parentInode name).map Prod.snd)

end Scanned

/-- Finding in a map with several elements of one key gives any of them. -/
structure MultimapFind where
  pick : List (Word × Nat) → Word → Option Nat
  member : ∀ {entries wanted idx}, pick entries wanted = some idx → (wanted, idx) ∈ entries
  found : ∀ {entries wanted idx}, (wanted, idx) ∈ entries → pick entries wanted ≠ none

/-- The elements of a key kept in the order in which they came, and the first one found. -/
def MultimapFind.first : MultimapFind where
  pick entries wanted := (entries.find? fun entry => entry.1 = wanted).map Prod.snd
  member := by
    intro entries wanted idx picked
    obtain ⟨entry, found, rfl⟩ := Option.map_eq_some_iff.1 picked
    have own := List.find?_some found
    rw [← of_decide_eq_true own]
    exact List.mem_of_find?_eq_some found
  found := by
    intro entries wanted idx member missing
    have apart := List.find?_eq_none.1 (Option.map_eq_none_iff.1 missing) _ member
    simp at apart

instance : Inhabited MultimapFind := ⟨.first⟩

def Scanned.findByInode (scanned : Scanned) (multimap : MultimapFind) (inode : Word) :
    Option (Option Dirent) :=
  scanned.at? (multimap.pick scanned.byInode inode)

def scanInto (d : List Byte) (partOff offset : Nat) (scanned : Scanned) : Option Scanned :=
  if offset + 12 ≤ d.length then
    match direntAt d partOff offset with
    | none => none
    | some none => scanInto d partOff (offset + 1) scanned
    | some (some dirent) =>
      scanInto d partOff (offset + 12 + (dirent.reclen.toNat - 5)) (scanned.push dirent)
  else some scanned
termination_by d.length - offset

/-- A partition: its offset in the file and the bytes from there on. -/
structure Efs2Filesystem where
  partOff : BitVec 64
  buf : List Byte
  sized : buf.length < 2 ^ 63

namespace Efs2Filesystem

/-- A file that cannot be opened or read leaves no partition. -/
def opened (file : Option {bytes : List Byte // bytes.length < 2 ^ 63}) (partOff : BitVec 64) :
    Bool × Efs2Filesystem :=
  match file with
  | none => (false, ⟨partOff, [], by decide⟩)
  | some file =>
    if file.1.length ≤ partOff.toNat then (false, ⟨partOff, [], by decide⟩)
    else (true, ⟨partOff, file.1.drop partOff.toNat, by
      have sized := file.2
      rw [List.length_drop]
      omega⟩)

variable (fs : Efs2Filesystem)

def partLen : BitVec 64 := BitVec.ofNat 64 fs.buf.length

def scan : Option Scanned := scanInto fs.buf fs.partOff.toNat 0 .empty

/-- No cluster where it does not fit. -/
def readCluster (clusterId : Word) : Option (Option (List Byte)) :=
  let off := clusterId.zeroExtend 64 * 512
  if fs.partLen < off + 512 then some none else (assign fs.buf off.toNat clusterSize).map some

/-- The pointers of a block, for so many. -/
def readPointers (d : List Byte) (stopAtTerminator : Bool) : Nat → Nat → Option (List Word)
  | 0, _ => some []
  | left + 1, offset => do
    let c ← rd32 d offset
    if stopAtTerminator ∧ c = clusterNone then some []
    else do
      let ptrs ← readPointers d stopAtTerminator left (offset + 4)
      some (c :: ptrs)

def readIndirectBlockAt (absOff : BitVec 64) (stopAtTerminator : Bool) : Option (List Word) :=
  if absOff < fs.partOff then some []
  else
    let rel := absOff - fs.partOff
    if fs.partLen < rel + 512 then some []
    else readPointers fs.buf stopAtTerminator (clusterSize / 4) rel.toNat

/-- The loop over the pointers, with the bytes so far. -/
def gather (nbytes : BitVec 64) : List Word → List Byte → Option (List Byte)
  | [], out => some out
  | cid :: clusters, out =>
    if cid = clusterNone then some out
    else do
      let cluster ← fs.readCluster cid
      match cluster with
      | none => some out
      | some c =>
        if nbytes ≠ 0 ∧ nbytes.toNat ≤ (out ++ c).length then some (out ++ c)
        else gather nbytes clusters (out ++ c)

def readDataFromIndirect (indirectAbsOff nbytes : BitVec 64) : Option (List Byte) := do
  let clusters ← fs.readIndirectBlockAt indirectAbsOff true
  let out ← fs.gather nbytes clusters []
  if nbytes ≠ 0 ∧ nbytes.toNat < out.length then some (out.take nbytes.toNat) else some out

end Efs2Filesystem

/-- The parent and the name can be told apart in a key. -/
theorem key_inj {parent parent' : Word} {name name' : List Byte} :
    key parent name = key parent' name' ↔ parent = parent' ∧ name = name' := by
  constructor
  · intro same
    obtain ⟨parents, names⟩ := List.append_inj same (by simp)
    exact ⟨leBytes_word_inj parents, List.tail_eq_of_cons_eq names⟩
  · rintro ⟨rfl, rfl⟩
    rfl

namespace Scanned

/-- The indexes say of the records what they are for. -/
structure Aligned (scanned : Scanned) : Prop where
  keyed : ∀ parentInode name, scanned.find parentInode name =
    some (latest (fun dirent => dirent.parentInode = parentInode ∧ dirent.name = name) scanned.dirents)
  inodes : ∀ inode idx, (inode, idx) ∈ scanned.byInode ↔
    ∃ dirent, scanned.dirents[idx]? = some dirent ∧ dirent.inode = inode

theorem aligned_empty : empty.Aligned := ⟨fun _ _ => rfl, fun _ _ => by simp [empty]⟩

/-- A record keeps its place. -/
theorem at?_push {scanned : Scanned} {place : Option Nat} {found : Option Dirent}
    (there : scanned.at? place = some found) (dirent : Dirent) :
    (scanned.push dirent).at? place = some found := by
  cases place with
  | none => exact there
  | some idx =>
    obtain ⟨held, inside, same⟩ := Option.map_eq_some_iff.1 there
    have before : idx < scanned.dirents.length := (List.getElem?_eq_some_iff.1 inside).1
    rw [at?, push, List.getElem?_append_left before, inside, ← same]
    rfl

theorem Aligned.push {scanned : Scanned} (aligned : scanned.Aligned) (dirent : Dirent) :
    (scanned.push dirent).Aligned where
  keyed parentInode name := by
    have place : (scanned.push dirent).byKey.find? (fun entry => entry.1 = key parentInode name) =
        if key dirent.parentInode dirent.name = key parentInode name then
          some (key dirent.parentInode dirent.name, scanned.dirents.length)
        else scanned.byKey.find? fun entry => entry.1 = key parentInode name :=
      find?_upsert Prod.fst _ _ _
    have last : latest (fun dirent => dirent.parentInode = parentInode ∧ dirent.name = name)
        (scanned.push dirent).dirents =
          if dirent.parentInode = parentInode ∧ dirent.name = name then some dirent
          else latest (fun dirent => dirent.parentInode = parentInode ∧ dirent.name = name)
            scanned.dirents := by
      rw [Scanned.push, latest_snoc]
      simp only [decide_eq_true_eq]
    rw [find, place, last]
    simp only [key_inj]
    by_cases own : dirent.parentInode = parentInode ∧ dirent.name = name
    · rw [if_pos own, if_pos own]
      simp [at?, Scanned.push]
    · rw [if_neg own, if_neg own]
      exact at?_push (aligned.keyed parentInode name) dirent
  inodes inode idx := by
    simp only [Scanned.push, List.mem_append, List.mem_singleton, Prod.mk.injEq, aligned.inodes]
    constructor
    · rintro (⟨held, inside, own⟩ | ⟨rfl, rfl⟩)
      · rw [List.getElem?_append_left (List.getElem?_eq_some_iff.1 inside).1]
        exact ⟨held, inside, own⟩
      · exact ⟨dirent, by simp, rfl⟩
    · rintro ⟨held, inside, own⟩
      by_cases before : idx < scanned.dirents.length
      · rw [List.getElem?_append_left before] at inside
        exact .inl ⟨held, inside, own⟩
      · rw [List.getElem?_append_right (Nat.not_lt.1 before), List.getElem?_singleton] at inside
        split at inside
        · cases inside
          exact .inr ⟨own.symm, by omega⟩
        · cases inside

/-- Some record with the inode, if any has it. -/
theorem Aligned.findByInode {scanned : Scanned} (aligned : scanned.Aligned) (multimap : MultimapFind)
    (inode : Word) :
    ∃ found, scanned.findByInode multimap inode = some found ∧
      (found ≠ none ↔ ∃ dirent ∈ scanned.dirents, dirent.inode = inode) ∧
      ∀ dirent, found = some dirent → dirent ∈ scanned.dirents ∧ dirent.inode = inode := by
  rw [Scanned.findByInode]
  cases picked : multimap.pick scanned.byInode inode with
  | none =>
    refine ⟨none, rfl, ⟨fun found => absurd rfl found, ?_⟩, fun dirent found => nomatch found⟩
    rintro ⟨dirent, member, own⟩
    obtain ⟨idx, inside⟩ := List.getElem?_of_mem member
    exact absurd picked (multimap.found ((aligned.inodes inode idx).2 ⟨dirent, inside, own⟩))
  | some idx =>
    obtain ⟨dirent, inside, own⟩ := (aligned.inodes inode idx).1 (multimap.member picked)
    have member := List.mem_of_getElem? inside
    refine ⟨some dirent, by rw [at?, inside]; rfl, ⟨fun _ => ⟨dirent, member, own⟩, fun _ => by simp⟩, ?_⟩
    rintro _ ⟨⟩
    exact ⟨member, own⟩

end Scanned

/-- The scan pushes the records in the order in which it comes to them. -/
theorem scanInto_eq (d : List Byte) (partOff offset : Nat) (scanned : Scanned) :
    scanInto d partOff offset scanned =
      (scanFrom d partOff offset).map fun dirents => dirents.foldl Scanned.push scanned := by
  induction left : d.length - offset using Nat.strong_induction_on generalizing offset scanned with
  | _ left ih =>
    rw [scanInto, scanFrom]
    by_cases inside : offset + 12 ≤ d.length
    · rw [if_pos inside, if_pos inside]
      cases direntAt d partOff offset with
      | none => rfl
      | some found =>
        cases found with
        | none => exact ih _ (by omega) _ _ rfl
        | some dirent =>
          simp only [Option.map_map]
          exact ih _ (by omega) _ _ rfl
    · rw [if_neg inside, if_neg inside]
      rfl

theorem push_dirents (dirents : List Dirent) (scanned : Scanned) :
    (dirents.foldl Scanned.push scanned).dirents = scanned.dirents ++ dirents := by
  induction dirents generalizing scanned with
  | nil => simp
  | cons dirent dirents ih => simp [ih, Scanned.push]

theorem pushed_aligned (dirents : List Dirent) {scanned : Scanned} (aligned : scanned.Aligned) :
    (dirents.foldl Scanned.push scanned).Aligned := by
  induction dirents generalizing scanned with
  | nil => exact aligned
  | cons dirent dirents ih => exact ih (aligned.push dirent)

/-- Every partition can be scanned; the indexes then say what they are for. -/
theorem Efs2Filesystem.scan_aligned (fs : Efs2Filesystem) :
    ∃ scanned, fs.scan = some scanned ∧ scanned.Aligned ∧
      scanDirents fs.buf fs.partOff.toNat = some scanned.dirents := by
  obtain ⟨dirents, scan, _⟩ := scanFrom_sound fs.buf fs.partOff.toNat 0
  refine ⟨dirents.foldl Scanned.push .empty, ?_, pushed_aligned dirents Scanned.aligned_empty, ?_⟩
  · rw [Efs2Filesystem.scan, scanInto_eq, scan]
    rfl
  · rw [push_dirents]
    exact scan

/-- So many words from an offset on. -/
def wordsAt (d : List Byte) (offset count : Nat) : List Word :=
  (List.range count).map fun k => BitVec.ofNat 32 (fieldAt d (offset + 4 * k) 4)

theorem wordsAt_succ (d : List Byte) (offset count : Nat) :
    wordsAt d offset (count + 1) =
      BitVec.ofNat 32 (fieldAt d offset 4) :: wordsAt d (offset + 4) count := by
  have next : ∀ k, offset + 4 + 4 * k = offset + 4 * (k + 1) := by omega
  simp only [wordsAt, List.range_succ_eq_map, List.map_cons, List.map_map, Nat.mul_zero, Nat.add_zero,
    next, Function.comp_def]

theorem readPointers_eq {d : List Byte} {offset left : Nat} (inside : offset + 4 * left ≤ d.length) :
    Efs2Filesystem.readPointers d true left offset =
      some ((wordsAt d offset left).takeWhile fun c => c ≠ clusterNone) := by
  induction left generalizing offset with
  | zero => rfl
  | succ left ih =>
    rw [Efs2Filesystem.readPointers, rd32, if_pos (by omega), wordsAt_succ, List.takeWhile_cons]
    by_cases last : BitVec.ofNat 32 (fieldAt d offset 4) = clusterNone
    · simp [last]
    · have rest := @ih (offset + 4) (by omega)
      simp [last, rest]

namespace Efs2Filesystem

variable (fs : Efs2Filesystem)

/-- The distance of an absolute offset from the partition's. -/
def relative (absOff : BitVec 64) : Nat := absOff.toNat - fs.partOff.toNat

/-- The pointers of the block at an offset; there is none where it does not fit. -/
def block (absOff : BitVec 64) : List Word :=
  if fs.partOff ≤ absOff ∧ fs.relative absOff + clusterSize ≤ fs.buf.length then
    wordsAt fs.buf (fs.relative absOff) (clusterSize / 4)
  else []

def cluster (clusterId : Word) : List Byte := (fs.buf.drop (clusterId.toNat * clusterSize)).take clusterSize

def Fits (clusterId : Word) : Prop := clusterId.toNat * clusterSize + clusterSize ≤ fs.buf.length

instance (clusterId : Word) : Decidable (fs.Fits clusterId) := inferInstanceAs (Decidable (_ ≤ _))

/-- The clusters a block names, up to the terminator or one that does not fit. -/
def payload (absOff : BitVec 64) : List Byte :=
  ((fs.block absOff).takeWhile fun cid => cid ≠ clusterNone ∧ fs.Fits cid).flatMap fs.cluster

/-- Where the bound of a block wraps to one the partition has room for. -/
def Wraps (absOff : BitVec 64) : Prop :=
  fs.partOff ≤ absOff ∧ 2 ^ 64 ≤ fs.relative absOff + clusterSize ∧
    fs.relative absOff + clusterSize - 2 ^ 64 ≤ fs.buf.length

end Efs2Filesystem

/-- No limit, or the first so many bytes. -/
def cut (nbytes : BitVec 64) (bytes : List Byte) : List Byte :=
  if nbytes = 0 then bytes else bytes.take nbytes.toNat

namespace Efs2Filesystem

variable {fs : Efs2Filesystem}

theorem readCluster_eq (clusterId : Word) :
    fs.readCluster clusterId = some (if fs.Fits clusterId then some (fs.cluster clusterId) else none) := by
  have sized := fs.sized
  have bound := clusterId.isLt
  have off : (clusterId.zeroExtend 64 * 512).toNat = clusterId.toNat * clusterSize := by
    simp [clusterSize]
    omega
  have beyond : fs.partLen < clusterId.zeroExtend 64 * 512 + 512 ↔ ¬fs.Fits clusterId := by
    rw [BitVec.lt_def, BitVec.toNat_add, off, partLen, BitVec.toNat_ofNat, Nat.mod_eq_of_lt (by omega), Fits]
    simp [clusterSize]
    omega
  rw [readCluster]
  simp only [beyond]
  by_cases fits : fs.Fits clusterId
  · have assigned : assign fs.buf (clusterId.toNat * clusterSize) clusterSize =
        some (fs.cluster clusterId) := if_pos fits
    rw [if_neg (not_not_intro fits), if_pos fits, off, assigned]
    rfl
  · rw [if_pos fits, if_neg fits]

/-- The loop stops where the clusters or the limit do. -/
theorem gather_eq (nbytes : BitVec 64) (clusters : List Word) (out : List Byte) :
    ∃ gathered, fs.gather nbytes clusters out = some gathered ∧
      cut nbytes gathered = cut nbytes
        (out ++ (clusters.takeWhile fun cid => cid ≠ clusterNone ∧ fs.Fits cid).flatMap fs.cluster) := by
  induction clusters generalizing out with
  | nil => exact ⟨out, rfl, by simp⟩
  | cons cid clusters ih =>
    rw [gather, List.takeWhile_cons]
    by_cases last : cid = clusterNone
    · exact ⟨out, if_pos last, by simp [last]⟩
    rw [if_neg last, readCluster_eq]
    by_cases fits : fs.Fits cid
    swap
    · exact ⟨out, by simp [fits], by simp [fits]⟩
    rw [if_pos fits, if_pos (decide_eq_true ⟨last, fits⟩), List.flatMap_cons, ← List.append_assoc]
    simp only [Option.bind_eq_bind, Option.bind_some]
    by_cases enough : nbytes ≠ 0 ∧ nbytes.toNat ≤ (out ++ fs.cluster cid).length
    · refine ⟨out ++ fs.cluster cid, if_pos enough, ?_⟩
      rw [cut, cut, if_neg enough.1, if_neg enough.1, List.take_append_of_le_length enough.2]
    · obtain ⟨gathered, rest, same⟩ := ih (out ++ fs.cluster cid)
      exact ⟨gathered, by rw [if_neg enough, rest], same⟩

theorem readDataFromIndirect_eq {absOff : BitVec 64} (nbytes : BitVec 64)
    (read : fs.readIndirectBlockAt absOff true =
      some ((fs.block absOff).takeWhile fun c => c ≠ clusterNone)) :
    fs.readDataFromIndirect absOff nbytes = some (cut nbytes (fs.payload absOff)) := by
  obtain ⟨gathered, done, same⟩ :=
    fs.gather_eq nbytes ((fs.block absOff).takeWhile fun c => c ≠ clusterNone) []
  have tests : (fun cid => decide (decide (cid ≠ clusterNone ∧ fs.Fits cid) = true ∧
      decide (cid ≠ clusterNone) = true)) = fun cid => decide (cid ≠ clusterNone ∧ fs.Fits cid) := by
    funext cid
    simp only [decide_eq_true_eq, decide_eq_decide]
    exact ⟨And.left, fun both => ⟨both, both.1⟩⟩
  rw [List.takeWhile_takeWhile, tests, List.nil_append, ← payload] at same
  rw [readDataFromIndirect, read, Option.bind_eq_bind, Option.bind_some, done, ← same, cut,
    Option.bind_eq_bind, Option.bind_some]
  by_cases unlimited : nbytes = 0
  · rw [if_neg fun both => both.1 unlimited, if_pos unlimited]
  rw [if_neg unlimited]
  by_cases longer : nbytes.toNat < gathered.length
  · rw [if_pos ⟨unlimited, longer⟩]
  · rw [if_neg fun both => longer both.2, List.take_of_length_le (Nat.not_lt.1 longer)]

/-- The block is read where it is, unless its bound wraps. -/
theorem readIndirectBlockAt_eq {absOff : BitVec 64} (unwrapped : ¬fs.Wraps absOff) :
    fs.readIndirectBlockAt absOff true =
      some ((fs.block absOff).takeWhile fun c => c ≠ clusterNone) := by
  have sized := fs.sized
  rw [readIndirectBlockAt, block]
  by_cases before : absOff < fs.partOff
  · rw [if_pos before, if_neg fun both => absurd both.1 (BitVec.not_le.2 before)]
    rfl
  have inside : fs.partOff ≤ absOff := BitVec.not_lt.1 before
  have rel : (absOff - fs.partOff).toNat = fs.relative absOff := BitVec.toNat_sub_of_le inside
  have bound : fs.relative absOff < 2 ^ 64 := rel ▸ (absOff - fs.partOff).isLt
  have beyond : fs.partLen < absOff - fs.partOff + 512 ↔
      ¬fs.relative absOff + clusterSize ≤ fs.buf.length := by
    rw [BitVec.lt_def, BitVec.toNat_add, rel, partLen, BitVec.toNat_ofNat, Nat.mod_eq_of_lt (by omega)]
    simp only [Wraps, inside, true_and, clusterSize] at unwrapped ⊢
    have size : (512 : BitVec 64).toNat = 512 := rfl
    omega
  rw [if_neg before]
  simp only [beyond]
  by_cases fits : fs.relative absOff + clusterSize ≤ fs.buf.length
  · rw [if_neg (not_not_intro fits), if_pos ⟨inside, fits⟩, rel]
    exact readPointers_eq fits
  · rw [if_pos fits, if_neg fun both => fits both.2]
    rfl

/-- Where the bound wraps, the block is read where the partition is not. -/
theorem readIndirectBlockAt_wraps {absOff : BitVec 64} (wraps : fs.Wraps absOff) :
    fs.readIndirectBlockAt absOff true = none := by
  have sized := fs.sized
  obtain ⟨inside, wrapped, room⟩ := wraps
  have rel : (absOff - fs.partOff).toNat = fs.relative absOff := BitVec.toNat_sub_of_le inside
  have bound : fs.relative absOff < 2 ^ 64 := rel ▸ (absOff - fs.partOff).isLt
  have passes : ¬fs.partLen < absOff - fs.partOff + 512 := by
    rw [BitVec.lt_def, BitVec.toNat_add, rel, partLen, BitVec.toNat_ofNat, Nat.mod_eq_of_lt (by omega)]
    have size : (512 : BitVec 64).toNat = 512 := rfl
    rw [clusterSize] at wrapped room
    omega
  rw [readIndirectBlockAt, if_neg (BitVec.not_lt.2 inside)]
  simp only [if_neg passes, rel]
  have outside : rd32 fs.buf (fs.relative absOff) = none := if_neg (by
    rw [clusterSize] at wrapped
    omega)
  rw [clusterSize, readPointers, outside]
  rfl

/-- The indexes find what the scan found, the last of equal keys. The payload of a block is that
of the clusters it names, unless the bound of the block wraps. -/
theorem lookups_agree (fs : Efs2Filesystem) :
    ∃ scanned, fs.scan = some scanned ∧
      (∀ parentInode name, ∃ found, scanned.find parentInode name = some found ∧
        (found ≠ none ↔ ∃ dirent ∈ scanned.dirents,
          dirent.parentInode = parentInode ∧ dirent.name = name) ∧
        found = latest (fun dirent => dirent.parentInode = parentInode ∧ dirent.name = name)
          scanned.dirents) ∧
      (∀ multimap inode, ∃ found, scanned.findByInode multimap inode = some found ∧
        (found ≠ none ↔ ∃ dirent ∈ scanned.dirents, dirent.inode = inode) ∧
        ∀ dirent, found = some dirent → dirent ∈ scanned.dirents ∧ dirent.inode = inode) ∧
      ∀ absOff nbytes, fs.readDataFromIndirect absOff nbytes = some (cut nbytes (fs.payload absOff)) ↔
        ¬fs.Wraps absOff := by
  obtain ⟨scanned, scan, aligned, _⟩ := fs.scan_aligned
  refine ⟨scanned, scan, fun parentInode name => ⟨_, aligned.keyed parentInode name, ?_, rfl⟩,
    aligned.findByInode, fun absOff nbytes => ⟨fun agrees wraps => ?_, fun unwrapped =>
      readDataFromIndirect_eq nbytes (readIndirectBlockAt_eq unwrapped)⟩⟩
  · constructor
    · intro found
      obtain ⟨dirent, last⟩ := Option.ne_none_iff_exists'.1 found
      obtain ⟨member, passes⟩ := latest_passes last
      exact ⟨dirent, member, of_decide_eq_true passes⟩
    · rintro ⟨dirent, member, passes⟩ missing
      obtain ⟨last, found⟩ := exists_latest
        (fun dirent : Dirent => decide (dirent.parentInode = parentInode ∧ dirent.name = name)) member
        (decide_eq_true passes)
      exact nomatch missing.symm.trans found
  · rw [readDataFromIndirect, readIndirectBlockAt_wraps wraps] at agrees
    cases agrees

/-- A file of one cluster of zeros. -/
def clusterFile : {bytes : List Byte // bytes.length < 2 ^ 63} :=
  ⟨List.replicate clusterSize 0, by rw [List.length_replicate, clusterSize]; decide⟩

def oneCluster : Efs2Filesystem := (opened (some clusterFile) 0).2

/-- A block 512 bytes before the end of the address range: its words are read from before the
partition, and any of them may name the cluster. -/
theorem lookups_disagree :
    oneCluster.Fits 0 ∧ oneCluster.payload 0xfffffffffffffe00 = [] ∧
      oneCluster.readDataFromIndirect 0xfffffffffffffe00 0 ≠
        some (cut 0 (oneCluster.payload 0xfffffffffffffe00)) := by
  have length : oneCluster.buf.length = 512 := by decide +kernel
  have start : oneCluster.partOff = 0 := by decide +kernel
  have missing : oneCluster.block 0xfffffffffffffe00 = [] := if_neg fun both => by
    have fits := both.2
    rw [length, relative, start] at fits
    revert fits
    decide
  have wraps : oneCluster.Wraps 0xfffffffffffffe00 := by
    rw [Wraps, length, relative, start]
    decide
  refine ⟨?_, by rw [payload, missing]; rfl, ?_⟩
  · rw [Fits, length]
    decide
  · rw [readDataFromIndirect, readIndirectBlockAt_wraps wraps]
    simp

end Efs2Filesystem

end ZeeboLle.Efs2
