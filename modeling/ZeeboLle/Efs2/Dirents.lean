import ZeeboLle.Paging.Bytes
import ZeeboLle.Unicorn.Memory

/-! The scan for directory records in the applet partition. It tries every offset that a record
could start at and moves on by one byte where a check fails. A read outside the partition has
no value, so a scan that returns one stayed inside. -/
namespace ZeeboLle.Efs2

open Paging Unicorn

structure Dirent where
  fileOff : Nat
  inode : Word
  reclen : Byte
  type : Byte
  parentRef : Word
  name : List Byte
deriving DecidableEq

def direntMarker : Byte := 0x69

def rd32 (d : List Byte) (offset : Nat) : Option Word :=
  if offset + 4 ≤ d.length then some (BitVec.ofNat 32 (fieldAt d offset 4)) else none

/-- The loop over the bytes of a name, left at the first that is not printable. -/
def printable (d : List Byte) (offset : Nat) : Nat → Option Bool
  | 0 => some true
  | count + 1 => do
    let byte ← d[offset]?
    if byte < 32 ∨ 127 ≤ byte then some false else printable d (offset + 1) count

def assign (d : List Byte) (offset count : Nat) : Option (List Byte) :=
  if offset + count ≤ d.length then some ((d.drop offset).take count) else none

/-- The checks at one offset, and the record where all pass. The length of a record counts the
type and the parent reference with the name, but not the pad byte before it. -/
def direntAt (d : List Byte) (partOff offset : Nat) : Option (Option Dirent) := do
  let marker ← d[offset]?
  if marker ≠ direntMarker then some none else do
  let reclen ← d[offset + 5]?
  if reclen < 6 ∨ 200 < reclen then some none else do
  let nameLen := reclen.toNat - 5
  if d.length < offset + 12 + nameLen then some none else do
  let pad ← d[offset + 11]?
  if pad ≠ 0 then some none else do
  let named ← printable d (offset + 12) nameLen
  if named = false then some none else do
  let inode ← rd32 d (offset + 1)
  let type ← d[offset + 6]?
  let parentRef ← rd32 d (offset + 7)
  let name ← assign d (offset + 12) nameLen
  some (some ⟨partOff + offset, inode, reclen, type, parentRef, name⟩)

def scanFrom (d : List Byte) (partOff offset : Nat) : Option (List Dirent) :=
  if offset + 12 ≤ d.length then
    match direntAt d partOff offset with
    | none => none
    | some none => scanFrom d partOff (offset + 1)
    | some (some dirent) =>
      (scanFrom d partOff (offset + 12 + (dirent.reclen.toNat - 5))).map (dirent :: ·)
  else some []
termination_by d.length - offset

def scanDirents (d : List Byte) (partOff : Nat) : Option (List Dirent) := scanFrom d partOff 0

/-- What a directory holds of one file; the name fits a record. -/
@[ext] structure Entry where
  inode : Word
  type : Byte
  parentRef : Word
  name : List Byte
  sized : 1 ≤ name.length ∧ name.length ≤ 195
  printable : ∀ byte ∈ name, 32 ≤ byte.toNat ∧ byte.toNat ≤ 126

namespace Entry

def reclen (entry : Entry) : Byte := BitVec.ofNat 8 (entry.name.length + 5)

def encode (entry : Entry) : List Byte :=
  direntMarker :: (leBytes 4 entry.inode.toNat ++ entry.reclen :: entry.type ::
    (leBytes 4 entry.parentRef.toNat ++ 0 :: entry.name))

def dirent (entry : Entry) (fileOff : Nat) : Dirent where
  fileOff := fileOff
  inode := entry.inode
  reclen := entry.reclen
  type := entry.type
  parentRef := entry.parentRef
  name := entry.name

@[simp] theorem length_encode (entry : Entry) : entry.encode.length = 12 + entry.name.length := by
  simp [encode]
  omega

theorem toNat_reclen (entry : Entry) : entry.reclen.toNat = entry.name.length + 5 := by
  have sized := entry.sized
  rw [reclen, BitVec.toNat_ofNat]
  omega

end Entry

variable {d : List Byte} {partOff offset : Nat}

theorem refused_iff (byte : Byte) :
    (byte < 32 ∨ 127 ≤ byte) ↔ ¬(32 ≤ byte.toNat ∧ byte.toNat ≤ 126) := by
  have low : (32 : Byte).toNat = 32 := rfl
  have high : (127 : Byte).toNat = 127 := rfl
  rw [BitVec.lt_def, BitVec.le_def, low, high]
  omega

theorem printable_eq {count : Nat} (inside : offset + count ≤ d.length) :
    printable d offset count =
      some (((d.drop offset).take count).all fun byte => 32 ≤ byte.toNat ∧ byte.toNat ≤ 126) := by
  induction count generalizing offset with
  | zero => simp [printable]
  | succ count ih =>
    have below : offset < d.length := by omega
    rw [List.drop_eq_getElem_cons below, List.take_succ_cons, List.all_cons, printable,
      List.getElem?_eq_getElem below]
    simp only [Option.bind_eq_bind, Option.bind_some, refused_iff]
    by_cases passed : 32 ≤ d[offset].toNat ∧ d[offset].toNat ≤ 126
    · rw [if_neg (not_not_intro passed), ih (by omega)]
      simp [passed]
    · rw [if_pos passed]
      simp [passed]

/-- The bytes at an offset, laid out as the fields of a record. -/
structure Header (bytes : List Byte) (marker : Byte) (inode : List Byte) (reclen type : Byte)
    (parent : List Byte) (pad : Byte) (rest : List Byte) : Prop where
  inode_length : inode.length = 4
  parent_length : parent.length = 4
  bytes_eq : bytes = marker :: (inode ++ reclen :: type :: (parent ++ pad :: rest))

theorem exists_header {bytes : List Byte} (enough : 12 ≤ bytes.length) :
    ∃ marker inode reclen type parent pad rest,
      Header bytes marker inode reclen type parent pad rest := by
  match bytes, enough with
  | b0 :: b1 :: b2 :: b3 :: b4 :: b5 :: b6 :: b7 :: b8 :: b9 :: b10 :: b11 :: rest, _ =>
    exact ⟨b0, [b1, b2, b3, b4], b5, b6, [b7, b8, b9, b10], b11, rest, rfl, rfl, rfl⟩

section Header

variable {bytes inode parent rest after : List Byte} {marker reclen type pad : Byte} {entry : Entry}

/-- A record at the offset fixes every field. -/
theorem Header.encode (header : Header bytes marker inode reclen type parent pad rest)
    (encoded : bytes = entry.encode ++ after) :
    marker = direntMarker ∧ inode = leBytes 4 entry.inode.toNat ∧ reclen = entry.reclen ∧
      type = entry.type ∧ parent = leBytes 4 entry.parentRef.toNat ∧ pad = 0 ∧
      rest = entry.name ++ after := by
  rw [header.bytes_eq, Entry.encode, List.cons_append, List.append_assoc] at encoded
  obtain ⟨marked, fields⟩ := List.cons_eq_cons.mp encoded
  obtain ⟨inodes, fields⟩ := List.append_inj fields (by simp [header.inode_length])
  rw [List.cons_append, List.cons_append, List.append_assoc] at fields
  obtain ⟨lengths, fields⟩ := List.cons_eq_cons.mp fields
  obtain ⟨types, fields⟩ := List.cons_eq_cons.mp fields
  obtain ⟨parents, fields⟩ := List.append_inj fields (by simp [header.parent_length])
  obtain ⟨pads, names⟩ := List.cons_eq_cons.mp fields
  exact ⟨marked, inodes, lengths, types, parents, pads, names⟩

variable (header : Header (d.drop offset) marker inode reclen type parent pad rest)

include header

theorem Header.getElem? : d[offset]? = some marker ∧ d[offset + 5]? = some reclen ∧
    d[offset + 6]? = some type ∧ d[offset + 11]? = some pad := by
  have inodes := header.inode_length
  have parents := header.parent_length
  have start := @List.getElem?_drop _ d offset 0
  rw [Nat.add_zero] at start
  simp only [← start, ← List.getElem?_drop, header.bytes_eq]
  simp [List.getElem?_append, inodes, parents]

theorem Header.rd32 : rd32 d (offset + 1) = some (BitVec.ofNat 32 (leValue inode)) ∧
    rd32 d (offset + 7) = some (BitVec.ofNat 32 (leValue parent)) := by
  have inodes := header.inode_length
  have parents := header.parent_length
  have length := congrArg List.length header.bytes_eq
  simp only [List.length_drop, List.length_cons, List.length_append, inodes, parents] at length
  have early : inode.drop 6 = [] := List.drop_of_length_le (by omega)
  rw [Efs2.rd32, Efs2.rd32, if_pos (by omega), if_pos (by omega), fieldAt, fieldAt,
    ← List.drop_drop, ← List.drop_drop, header.bytes_eq]
  simp [List.drop_append, inodes, parents, early]

theorem Header.rest_eq : rest = d.drop (offset + 12) := by
  have inodes := header.inode_length
  have parents := header.parent_length
  have early : inode.drop 11 = [] := List.drop_of_length_le (by omega)
  have late : parent.drop 5 = [] := List.drop_of_length_le (by omega)
  rw [← List.drop_drop, header.bytes_eq]
  simp [List.drop_append, inodes, parents, early, late]

end Header

theorem leBytes_field {field : List Byte} (length : field.length = 4) :
    leBytes 4 (BitVec.ofNat 32 (leValue field)).toNat = field := by
  have bound : leValue field < 2 ^ 32 := by simpa [length] using leValue_lt field
  rw [BitVec.toNat_ofNat, Nat.mod_eq_of_lt bound, ← length, leBytes_leValue]

theorem unsized_iff (reclen : Byte) :
    (reclen < 6 ∨ 200 < reclen) ↔ ¬(6 ≤ reclen.toNat ∧ reclen.toNat ≤ 200) := by
  have low : (6 : Byte).toNat = 6 := rfl
  have high : (200 : Byte).toNat = 200 := rfl
  rw [BitVec.lt_def, BitVec.lt_def, low, high]
  omega

/-- Fields that pass every check are a record. -/
theorem Header.exists_entry {bytes inode parent rest : List Byte} {marker reclen type pad : Byte}
    (header : Header bytes marker inode reclen type parent pad rest) (marked : marker = direntMarker)
    (sizes : 6 ≤ reclen.toNat ∧ reclen.toNat ≤ 200) (enough : reclen.toNat - 5 ≤ rest.length)
    (padded : pad = 0)
    (named : (rest.take (reclen.toNat - 5)).all
      (fun byte => decide (32 ≤ byte.toNat ∧ byte.toNat ≤ 126)) = true) :
    ∃ entry : Entry, bytes = entry.encode ++ rest.drop (reclen.toNat - 5) ∧
      entry.inode = BitVec.ofNat 32 (leValue inode) ∧ entry.type = type ∧
      entry.parentRef = BitVec.ofNat 32 (leValue parent) ∧
      entry.name = rest.take (reclen.toNat - 5) ∧ entry.reclen = reclen := by
  have length : (rest.take (reclen.toNat - 5)).length = reclen.toNat - 5 :=
    List.length_take_of_le enough
  let entry : Entry :=
    { inode := BitVec.ofNat 32 (leValue inode)
      type := type
      parentRef := BitVec.ofNat 32 (leValue parent)
      name := rest.take (reclen.toNat - 5)
      sized := by rw [length]; omega
      printable := fun byte member => of_decide_eq_true (List.all_eq_true.mp named byte member) }
  have own : entry.reclen = reclen := by
    apply BitVec.eq_of_toNat_eq
    rw [entry.toNat_reclen, length]
    omega
  refine ⟨entry, ?_, rfl, rfl, rfl, rfl, own⟩
  rw [header.bytes_eq, Entry.encode, own, leBytes_field header.inode_length,
    leBytes_field header.parent_length, marked, padded]
  simp [entry]

/-- The checks find a record exactly where one starts, and read nothing outside. -/
theorem direntAt_spec (partOff : Nat) (inside : offset + 12 ≤ d.length) :
    (∃ entry : Entry, ∃ after, d.drop offset = entry.encode ++ after ∧
        direntAt d partOff offset = some (some (entry.dirent (partOff + offset)))) ∨
      ((∀ (entry : Entry) (after : List Byte), d.drop offset ≠ entry.encode ++ after) ∧
        direntAt d partOff offset = some none) := by
  obtain ⟨marker, inode, reclen, type, parent, pad, rest, header⟩ :=
    @exists_header (d.drop offset) (by rw [List.length_drop]; omega)
  obtain ⟨first, fifth, sixth, last⟩ := header.getElem?
  obtain ⟨inodes, parents⟩ := header.rd32
  unfold direntAt
  simp only [first, fifth, sixth, last, inodes, parents, Option.bind_eq_bind, Option.bind_some]
  by_cases marked : marker = direntMarker
  swap
  · rw [if_pos marked]
    exact .inr ⟨fun entry after encoded => marked (header.encode encoded).1, rfl⟩
  rw [if_neg (not_not_intro marked)]
  by_cases sizes : 6 ≤ reclen.toNat ∧ reclen.toNat ≤ 200
  swap
  · rw [if_pos ((unsized_iff reclen).mpr sizes)]
    refine .inr ⟨fun entry after encoded => sizes ?_, rfl⟩
    have bounds := entry.sized
    rw [(header.encode encoded).2.2.1, entry.toNat_reclen]
    omega
  rw [if_neg (mt (unsized_iff reclen).mp (not_not_intro sizes))]
  by_cases outside : d.length < offset + 12 + (reclen.toNat - 5)
  · rw [if_pos outside]
    refine .inr ⟨fun entry after encoded => ?_, rfl⟩
    have length := congrArg List.length encoded
    rw [List.length_drop, List.length_append, Entry.length_encode] at length
    rw [(header.encode encoded).2.2.1, entry.toNat_reclen] at outside
    omega
  rw [if_neg outside]
  by_cases padded : pad = 0
  swap
  · rw [if_pos padded]
    exact .inr ⟨fun entry after encoded => padded (header.encode encoded).2.2.2.2.2.1, rfl⟩
  rw [if_neg (not_not_intro padded), printable_eq (by omega), ← header.rest_eq, Option.bind_some]
  cases named : (rest.take (reclen.toNat - 5)).all fun byte =>
      decide (32 ≤ byte.toNat ∧ byte.toNat ≤ 126) with
  | false =>
    refine .inr ⟨fun entry after encoded => ?_, rfl⟩
    obtain ⟨_, _, lengths, _, _, _, names⟩ := header.encode encoded
    rw [lengths, entry.toNat_reclen, Nat.add_sub_cancel, names, List.take_left] at named
    have shown : entry.name.all (fun byte => decide (32 ≤ byte.toNat ∧ byte.toNat ≤ 126)) = true :=
      List.all_eq_true.mpr fun byte member => decide_eq_true (entry.printable byte member)
    rw [shown] at named
    cases named
  | true =>
    have enough : reclen.toNat - 5 ≤ rest.length := by
      rw [header.rest_eq, List.length_drop]
      omega
    obtain ⟨entry, encoded, inode_eq, type_eq, parent_eq, name_eq, own⟩ :=
      header.exists_entry marked sizes enough padded named
    refine .inl ⟨entry, rest.drop (reclen.toNat - 5), encoded, ?_⟩
    have assigned : assign d (offset + 12) (reclen.toNat - 5) =
        some (rest.take (reclen.toNat - 5)) := by
      rw [assign, if_pos (by omega), ← header.rest_eq]
    simp [assigned, Entry.dirent, own, inode_eq, type_eq, parent_eq, name_eq]

theorem scanFrom_skip (inside : offset + 12 ≤ d.length)
    (nothing : direntAt d partOff offset = some none) :
    scanFrom d partOff offset = scanFrom d partOff (offset + 1) := by
  rw [scanFrom, if_pos inside, nothing]

theorem scanFrom_take {entry : Entry} (inside : offset + 12 ≤ d.length)
    (found : direntAt d partOff offset = some (some (entry.dirent (partOff + offset)))) :
    scanFrom d partOff offset =
      (scanFrom d partOff (offset + entry.encode.length)).map
        (entry.dirent (partOff + offset) :: ·) := by
  have length : entry.encode.length = 12 + (entry.reclen.toNat - 5) := by
    rw [entry.length_encode, entry.toNat_reclen, Nat.add_sub_cancel]
  rw [scanFrom, if_pos inside, found, length, ← Nat.add_assoc]
  rfl

theorem scanFrom_end (outside : ¬offset + 12 ≤ d.length) : scanFrom d partOff offset = some [] := by
  rw [scanFrom, if_neg outside]

/-- Where a record extends to. -/
def Dirent.fileEnd (dirent : Dirent) : Nat := dirent.fileOff + 12 + dirent.name.length

/-- The record is what the bytes of the partition at its offset say. -/
def Dirent.Recorded (d : List Byte) (partOff : Nat) (dirent : Dirent) : Prop :=
  ∃ entry : Entry, dirent = entry.dirent dirent.fileOff ∧ partOff ≤ dirent.fileOff ∧
    dirent.fileEnd ≤ partOff + d.length ∧
    (d.drop (dirent.fileOff - partOff)).take entry.encode.length = entry.encode

theorem scanFrom_sound (d : List Byte) (partOff offset : Nat) :
    ∃ dirents, scanFrom d partOff offset = some dirents ∧
      (∀ dirent ∈ dirents, partOff + offset ≤ dirent.fileOff ∧ dirent.Recorded d partOff) ∧
      dirents.Pairwise (fun left right => left.fileEnd ≤ right.fileOff) := by
  induction left : d.length - offset using Nat.strong_induction_on generalizing offset with
  | _ left ih =>
    by_cases inside : offset + 12 ≤ d.length
    swap
    · exact ⟨[], scanFrom_end inside, by simp, List.Pairwise.nil⟩
    rcases direntAt_spec partOff inside with ⟨entry, after, encoded, found⟩ | ⟨_, nothing⟩
    · have length := congrArg List.length encoded
      rw [List.length_drop, List.length_append] at length
      obtain ⟨dirents, scanned, recorded, ordered⟩ :=
        ih (d.length - (offset + entry.encode.length)) (by simp; omega)
          (offset + entry.encode.length) rfl
      have extent : (entry.dirent (partOff + offset)).fileEnd =
          partOff + (offset + entry.encode.length) := by
        rw [entry.length_encode]
        simp only [Dirent.fileEnd, Entry.dirent]
        omega
      refine ⟨entry.dirent (partOff + offset) :: dirents, ?_, ?_, ?_⟩
      · rw [scanFrom_take inside found, scanned]
        rfl
      · intro dirent member
        rcases List.mem_cons.mp member with rfl | later
        · refine ⟨Nat.le_refl _, entry, rfl, Nat.le_add_right _ _, by omega, ?_⟩
          rw [show (entry.dirent (partOff + offset)).fileOff - partOff = offset from
            Nat.add_sub_cancel_left _ _, encoded, List.take_left]
        · exact ⟨by have := (recorded dirent later).1; omega, (recorded dirent later).2⟩
      · refine List.pairwise_cons.mpr ⟨fun dirent later => ?_, ordered⟩
        rw [extent]
        exact (recorded dirent later).1
    · obtain ⟨dirents, scanned, recorded, ordered⟩ :=
        ih (d.length - (offset + 1)) (by omega) (offset + 1) rfl
      refine ⟨dirents, by rw [scanFrom_skip inside nothing, scanned], ?_, ordered⟩
      intro dirent member
      exact ⟨by have := (recorded dirent member).1; omega, (recorded dirent member).2⟩

theorem leBytes_word_inj {left right : Word} (same : leBytes 4 left.toNat = leBytes 4 right.toNat) :
    left = right := by
  have values := congrArg leValue same
  rw [leValue_leBytes, leValue_leBytes] at values
  apply BitVec.eq_of_toNat_eq
  have first := left.isLt
  have second := right.isLt
  omega

theorem encode_append_inj {left right : Entry} {after later : List Byte}
    (same : left.encode ++ after = right.encode ++ later) : left = right := by
  obtain ⟨marker, inode, reclen, type, parent, pad, rest, header⟩ :=
    @exists_header (left.encode ++ after) (by simp; omega)
  obtain ⟨_, inodes, lengths, types, parents, _, names⟩ := header.encode rfl
  obtain ⟨_, inodes', lengths', types', parents', _, names'⟩ := header.encode same
  have length : left.name.length = right.name.length := by
    have first := left.toNat_reclen
    have second := right.toNat_reclen
    rw [← lengths, lengths'] at first
    omega
  apply Entry.ext
  · exact leBytes_word_inj (inodes.symm.trans inodes')
  · exact types.symm.trans types'
  · exact leBytes_word_inj (parents.symm.trans parents')
  · exact (List.append_inj (names.symm.trans names') length).1

/-- Records in order, each behind a gap, and what follows the last one. -/
def layout : List (List Byte × Entry) → List Byte → List Byte
  | [], tail => tail
  | (gap, entry) :: records, tail => gap ++ (entry.encode ++ layout records tail)

/-- The records of a layout that starts at an offset of the dump. -/
def placed : Nat → List (List Byte × Entry) → List Dirent
  | _, [] => []
  | start, (gap, entry) :: records =>
    entry.dirent (start + gap.length) ::
      placed (start + gap.length + entry.encode.length) records

theorem scanFrom_gap {gap rest : List Byte} (unmarked : direntMarker ∉ gap)
    (here : d.drop offset = gap ++ rest) :
    scanFrom d partOff offset = scanFrom d partOff (offset + gap.length) := by
  induction gap generalizing offset with
  | nil => rfl
  | cons byte gap ih =>
    have next : d.drop (offset + 1) = gap ++ rest := by
      rw [← List.drop_drop, here]
      rfl
    have skipped := ih (fun member => unmarked (List.mem_cons_of_mem byte member)) next
    rw [List.length_cons, Nat.add_comm gap.length, ← Nat.add_assoc, ← skipped]
    by_cases inside : offset + 12 ≤ d.length
    · rcases direntAt_spec partOff inside with ⟨entry, after, encoded, _⟩ | ⟨_, nothing⟩
      · rw [here] at encoded
        exact absurd (List.cons_eq_cons.mp encoded).1 fun same => unmarked (by simp [same])
      · exact scanFrom_skip inside nothing
    · rw [scanFrom_end inside, scanFrom_end (by omega)]

theorem scanFrom_layout {records : List (List Byte × Entry)} {tail : List Byte}
    (unmarked : ∀ record ∈ records, direntMarker ∉ record.1) (last : direntMarker ∉ tail)
    (here : d.drop offset = layout records tail) :
    scanFrom d partOff offset = some (placed (partOff + offset) records) := by
  induction records generalizing offset with
  | nil =>
    have length := congrArg List.length here
    rw [List.length_drop] at length
    rw [layout, ← List.append_nil tail] at here
    rw [scanFrom_gap last here, scanFrom_end (by simp [layout] at length; omega), placed]
  | cons record records ih =>
    obtain ⟨gap, entry⟩ := record
    rw [layout] at here
    have start : d.drop (offset + gap.length) = entry.encode ++ layout records tail := by
      rw [← List.drop_drop, here, List.drop_left]
    have next : d.drop (offset + gap.length + entry.encode.length) = layout records tail := by
      rw [← List.drop_drop, start, List.drop_left]
    have length := congrArg List.length start
    rw [List.length_drop, List.length_append, Entry.length_encode] at length
    have sized := entry.sized
    have inside : offset + gap.length + 12 ≤ d.length := by omega
    rw [scanFrom_gap (unmarked (gap, entry) List.mem_cons_self) here]
    rcases direntAt_spec partOff inside with ⟨other, after, encoded, found⟩ | ⟨absent, _⟩
    · have same : other = entry := encode_append_inj (encoded.symm.trans start)
      rw [same] at found
      rw [scanFrom_take inside found,
        ih (fun record member => unmarked record (List.mem_cons_of_mem _ member)) next, placed]
      simp only [Option.map_some, Nat.add_assoc]
    · exact absurd start (absent entry (layout records tail))

/-- The scan recovers every directory whose gaps hold no marker, whatever its records hold; and
of any partition it reads no byte outside, and what it returns lies inside, in order and apart,
and is encoded there. -/
theorem scan_recovers_directory (partOff : Nat) :
    (∀ records tail, (∀ record ∈ records, direntMarker ∉ record.1) → direntMarker ∉ tail →
        scanDirents (layout records tail) partOff = some (placed partOff records)) ∧
      ∀ d, ∃ dirents, scanDirents d partOff = some dirents ∧
        (∀ dirent ∈ dirents, dirent.Recorded d partOff) ∧
        dirents.Pairwise fun left right =>
          left.fileOff < right.fileOff ∧ left.fileEnd ≤ right.fileOff := by
  constructor
  · intro records tail unmarked last
    exact scanFrom_layout unmarked last rfl
  · intro d
    obtain ⟨dirents, scanned, recorded, ordered⟩ := scanFrom_sound d partOff 0
    refine ⟨dirents, scanned, fun dirent member => (recorded dirent member).2, ?_⟩
    refine ordered.imp fun {left right} apart => ⟨?_, apart⟩
    rw [Dirent.fileEnd] at apart
    omega

/-- A name made of marker bytes. -/
theorem scan_recovers_directory_marked :
    let entry : Entry := ⟨7, 2, 0x100, [0x69, 0x69], by decide, by decide⟩
    scanDirents (layout [([0xff], entry)] [0]) 0x3220000 = some [entry.dirent 0x3220001] := by
  intro entry
  exact (scan_recovers_directory 0x3220000).1 [([0xff], entry)] [0] (by decide) (by decide)

end ZeeboLle.Efs2
