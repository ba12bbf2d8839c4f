import ZeeboLle.Paging.Bytes
import ZeeboLle.Unicorn.Memory
import Mathlib.Data.List.Chain

/-! The search for the BootInfo block and the walk over its records. A read outside the string has
no value, so a call that returns stayed inside. Words are the numbers they encode. -/
namespace ZeeboLle.Boot

open Paging Unicorn

structure Record where
  offset : Nat
  type : Nat
  len : Nat
  payload : List Nat
deriving DecidableEq

structure Pool where
  base : Nat
  stop : Nat
deriving DecidableEq

structure BootInfo where
  baseOffset : Nat := 0
  magic : Nat := 0
  records : List Record := []
deriving DecidableEq

def biMagic : Nat := 0x1960021d

def emptyHeader : Nat := 0x00010010

/-- The first two words, where a record has them. -/
def Pool.of : List Nat → Option Pool
  | base :: stop :: _ => some ⟨base, stop⟩
  | _ => none

def BootInfo.pools (info : BootInfo) (tag : Nat) : List Pool :=
  (info.records.filter fun record => record.type = tag).filterMap fun record => Pool.of record.payload

def rd32 (d : List Byte) (off : Nat) : Option Nat :=
  if off + 4 ≤ d.length then some (fieldAt d off 4) else none

def payloadFrom (d : List Byte) (o len k : Nat) : Option (List Nat) :=
  if k + 4 ≤ len then do
    let word ← rd32 d (o + k)
    let payload ← payloadFrom d o len (k + 4)
    some (word :: payload)
  else some []
termination_by len - k

/-- The loop over the records from one on, of a block at an offset. The stored offset has 32
bits. -/
def recordsFrom (d : List Byte) (i o : Nat) : Option (List Record) :=
  if o + 4 ≤ d.length then do
    let w0 ← rd32 d o
    let len := w0 &&& 0xffff
    let tp := w0 >>> 16
    if len < 4 ∨ d.length < o + len then some []
    else do
      let payload ← payloadFrom d o len 4
      let r : Record := ⟨o % 2 ^ 32, tp, len, payload⟩
      if 0x2000 < o + len - i then some [r]
      else do
        let records ← recordsFrom d i (o + len)
        some (r :: records)
  else some []
termination_by d.length - o

def locateFrom (d : List Byte) (out : BootInfo) (i : Nat) : Option (Bool × BootInfo) :=
  if i + 8 ≤ d.length then do
    let header ← rd32 d i
    let magic ← rd32 d (i + 4)
    if header = emptyHeader ∧ magic = biMagic then do
      let records ← recordsFrom d i i
      some (!records.isEmpty, ⟨i % 2 ^ 32, biMagic, records⟩)
    else locateFrom d out (i + 4)
  else some (false, out)
termination_by d.length - i

/-- A block that is not found leaves the result as it was. -/
def locate (d : List Byte) (out : BootInfo) : Option (Bool × BootInfo) := locateFrom d out 0

section Block

variable (d : List Byte)

/-- So many words from an offset on. -/
def wordsAt (offset count : Nat) : List Nat :=
  (List.range count).map fun k => fieldAt d (offset + 4 * k) 4

def recordLen (o : Nat) : Nat := fieldAt d o 4 % 0x10000

/-- The record at an offset, however far that is. -/
def recordAt (o : Nat) : Record :=
  ⟨o, fieldAt d o 4 / 0x10000, recordLen d o, wordsAt d (o + 4) ((recordLen d o - 4) / 4)⟩

/-- A record has a length and lies inside. -/
structure Room (o : Nat) : Prop where
  header : o + 4 ≤ d.length
  sized : 4 ≤ recordLen d o
  inside : o + recordLen d o ≤ d.length

/-- Where the records of a block start, from one on. -/
def startsFrom (i o : Nat) : List Nat :=
  if o + 4 ≤ d.length ∧ 4 ≤ recordLen d o ∧ o + recordLen d o ≤ d.length then
    if 0x2000 < o + recordLen d o - i then [o] else o :: startsFrom i (o + recordLen d o)
  else []
termination_by d.length - o

/-- The header and the magic that open a block. -/
structure Signed (i : Nat) : Prop where
  inside : i + 8 ≤ d.length
  header : fieldAt d i 4 = emptyHeader
  magic : fieldAt d (i + 4) 4 = biMagic

/-- The first block. -/
structure First (i : Nat) : Prop where
  aligned : i % 4 = 0
  signed : Signed d i
  earlier : ∀ j < i, j % 4 = 0 → ¬Signed d j

/-- Every record of the first block starts below 4 GiB. -/
def Below : Prop := ∀ i, First d i → ∀ o ∈ startsFrom d i i, o < 2 ^ 32

end Block

def Record.stored (record : Record) : Record := { record with offset := record.offset % 2 ^ 32 }

section Reading

variable {d : List Byte}

theorem rd32_inside {off : Nat} (inside : off + 4 ≤ d.length) : rd32 d off = some (fieldAt d off 4) :=
  if_pos inside

theorem wordsAt_succ (offset count : Nat) :
    wordsAt d offset (count + 1) = fieldAt d offset 4 :: wordsAt d (offset + 4) count := by
  have next : ∀ k, offset + 4 + 4 * k = offset + 4 * (k + 1) := by omega
  simp only [wordsAt, List.range_succ_eq_map, List.map_cons, List.map_map, Nat.mul_zero, Nat.add_zero,
    next, Function.comp_def]

theorem payloadFrom_eq {o len k : Nat} (inside : o + len ≤ d.length) :
    payloadFrom d o len k = some (wordsAt d (o + k) ((len - k) / 4)) := by
  induction left : len - k using Nat.strongRecOn generalizing k with
  | ind size ih =>
    rw [payloadFrom]
    by_cases more : k + 4 ≤ len
    · have count : size / 4 = (len - (k + 4)) / 4 + 1 := by omega
      rw [if_pos more, rd32_inside (by omega), ih _ (by omega) rfl, count, wordsAt_succ, Nat.add_assoc]
      rfl
    · have count : size / 4 = 0 := by omega
      rw [if_neg more, count]
      rfl

/-- The loop reads the records that are there. -/
theorem recordsFrom_eq (d : List Byte) (i o : Nat) :
    recordsFrom d i o = some ((startsFrom d i o).map fun o => (recordAt d o).stored) := by
  induction left : d.length - o using Nat.strongRecOn generalizing o with
  | ind left ih =>
    have len : ∀ w0 : Nat, w0 &&& 0xffff = w0 % 0x10000 := fun w0 => Nat.and_two_pow_sub_one_eq_mod w0 16
    have type : ∀ w0 : Nat, w0 >>> 16 = w0 / 0x10000 := fun w0 => Nat.shiftRight_eq_div_pow w0 16
    rw [recordsFrom, startsFrom]
    by_cases header : o + 4 ≤ d.length
    swap
    · rw [if_neg header, if_neg fun room => header room.1]
      rfl
    rw [if_pos header, rd32_inside header]
    simp only [Option.bind_eq_bind, Option.bind_some, len, type]
    rw [← recordLen]
    by_cases room : 4 ≤ recordLen d o ∧ o + recordLen d o ≤ d.length
    swap
    · rw [if_pos (by omega), if_neg fun all => room all.2]
      rfl
    rw [if_neg (by omega), if_pos ⟨header, room⟩, payloadFrom_eq room.2, Option.bind_some]
    by_cases beyond : 0x2000 < o + recordLen d o - i
    · rw [if_pos beyond, if_pos beyond]
      rfl
    · rw [if_neg beyond, if_neg beyond, ih _ (by omega) _ rfl]
      rfl

/-- The search finds the first block from an offset on, or there is none. -/
theorem locateFrom_spec (d : List Byte) (out : BootInfo) {i : Nat} (aligned : i % 4 = 0)
    (earlier : ∀ j < i, j % 4 = 0 → ¬Signed d j) :
    (∃ k, First d k ∧ locateFrom d out i = some (!(startsFrom d k k).isEmpty,
        ⟨k % 2 ^ 32, biMagic, (startsFrom d k k).map fun o => (recordAt d o).stored⟩)) ∨
      ((∀ k, ¬First d k) ∧ locateFrom d out i = some (false, out)) := by
  induction left : d.length - i using Nat.strongRecOn generalizing i with
  | ind size ih =>
    rw [locateFrom]
    by_cases inside : i + 8 ≤ d.length
    swap
    · refine .inr ⟨fun k first => ?_, if_neg inside⟩
      have reach := first.signed.inside
      exact earlier k (by omega) first.aligned first.signed
    rw [if_pos inside, rd32_inside (by omega), rd32_inside (by omega)]
    simp only [Option.bind_eq_bind, Option.bind_some]
    by_cases signed : fieldAt d i 4 = emptyHeader ∧ fieldAt d (i + 4) 4 = biMagic
    · refine .inl ⟨i, ⟨aligned, ⟨inside, signed.1, signed.2⟩, earlier⟩, ?_⟩
      rw [if_pos signed, recordsFrom_eq]
      simp
    · rw [if_neg signed]
      refine ih _ (by omega) (by omega) ?_ rfl
      intro j before multiple here
      by_cases same : j = i
      · exact signed ⟨same ▸ here.header, same ▸ here.magic⟩
      · exact earlier j (by omega) multiple here

theorem First.unique {i j : Nat} (first : First d i) (other : First d j) : i = j := by
  rcases Nat.lt_trichotomy i j with less | same | more
  · exact absurd first.signed (other.earlier i less first.aligned)
  · exact same
  · exact absurd other.signed (first.earlier j more other.aligned)

theorem startsFrom_room (d : List Byte) (i o : Nat) : ∀ p ∈ startsFrom d i o, Room d p := by
  induction left : d.length - o using Nat.strongRecOn generalizing o with
  | ind size ih =>
    intro p member
    rw [startsFrom] at member
    split at member
    · rename_i room
      split at member
      · rw [List.mem_singleton.1 member]
        exact ⟨room.1, room.2.1, room.2.2⟩
      · rcases List.mem_cons.1 member with rfl | later
        · exact ⟨room.1, room.2.1, room.2.2⟩
        · exact ih _ (by omega) _ rfl p later
    · cases member

theorem startsFrom_cons {d : List Byte} {i o : Nat} (found : startsFrom d i o ≠ []) :
    ∃ later, startsFrom d i o = o :: later ∧
      (later = [] ∨ later = startsFrom d i (o + recordLen d o)) := by
  rw [startsFrom] at found ⊢
  split
  · split
    · exact ⟨[], rfl, .inl rfl⟩
    · exact ⟨_, rfl, .inr rfl⟩
  · rename_i full
    exact absurd (if_neg full) found

/-- Each record starts where the one before it ends. -/
theorem startsFrom_chain (d : List Byte) (i o : Nat) :
    (startsFrom d i o).IsChain fun o next => next = o + recordLen d o := by
  induction left : d.length - o using Nat.strongRecOn generalizing o with
  | ind size ih =>
    by_cases found : startsFrom d i o = []
    · rw [found]
      exact .nil
    obtain ⟨later, starts, alone | more⟩ := startsFrom_cons found
    · rw [starts, alone]
      exact .singleton o
    have room := startsFrom_room d i o o (by rw [starts]; exact List.mem_cons_self)
    rw [starts, more]
    by_cases last : startsFrom d i (o + recordLen d o) = []
    · rw [last]
      exact .singleton o
    obtain ⟨_, next, _⟩ := startsFrom_cons last
    have shorter : d.length - (o + recordLen d o) < size := by
      have sized := room.sized
      have inside := room.inside
      omega
    have chain := ih _ shorter _ rfl
    rw [next] at chain ⊢
    exact .cons_cons rfl chain

end Reading

/-- The records lie inside, one after the other, and encode what is at their offsets. -/
structure Faithful (d : List Byte) (records : List Record) : Prop where
  inside : ∀ r ∈ records, r.offset + r.len ≤ d.length
  encoded : ∀ r ∈ records,
    wordsAt d r.offset (1 + (r.len - 4) / 4) = (r.type * 0x10000 + r.len) :: r.payload
  consecutive : records.IsChain fun r next => next.offset = r.offset + r.len

section Faithful

variable {d : List Byte}

theorem stored_eq {o : Nat} (low : o < 2 ^ 32) : (recordAt d o).stored = recordAt d o := by
  rw [Record.stored, recordAt, Nat.mod_eq_of_lt low]

theorem recordAt_encoded (o : Nat) :
    wordsAt d o (1 + ((recordAt d o).len - 4) / 4) =
      ((recordAt d o).type * 0x10000 + (recordAt d o).len) :: (recordAt d o).payload := by
  rw [Nat.add_comm 1, wordsAt_succ]
  simp only [recordAt, recordLen, Nat.div_add_mod']

theorem faithful_of_low {starts : List Nat} (room : ∀ o ∈ starts, Room d o) (low : ∀ o ∈ starts, o < 2 ^ 32)
    (chain : starts.IsChain fun o next => next = o + recordLen d o) :
    Faithful d (starts.map fun o => (recordAt d o).stored) := by
  have same : starts.map (fun o => (recordAt d o).stored) = starts.map (recordAt d) :=
    List.map_congr_left fun o member => stored_eq (low o member)
  rw [same]
  refine ⟨?_, ?_, (List.isChain_map (recordAt d)).2 chain⟩
  · intro r member
    obtain ⟨o, start, rfl⟩ := List.mem_map.1 member
    exact (room o start).inside
  · intro r member
    obtain ⟨o, _, rfl⟩ := List.mem_map.1 member
    exact recordAt_encoded o

/-- Nothing is past the last 32-bit offset that the stored offsets can be followed to. -/
theorem low_of_chain {len : Nat → Nat} {o : Nat} {later : List Nat} (first : o < 2 ^ 32)
    (chain : (o :: later).IsChain fun o next => next = o + len o)
    (stored : (o :: later).IsChain fun o next => next % 2 ^ 32 = o % 2 ^ 32 + len o) :
    ∀ p ∈ o :: later, p < 2 ^ 32 := by
  induction later generalizing o with
  | nil => simpa using first
  | cons next later ih =>
    obtain ⟨here, chain⟩ := List.isChain_cons_cons.1 chain
    obtain ⟨stored_here, stored⟩ := List.isChain_cons_cons.1 stored
    have low : next < 2 ^ 32 := by omega
    intro p member
    rcases List.mem_cons.1 member with rfl | later
    · exact first
    · exact ih low chain stored p later

/-- The block is not found again at its truncated offset, since it is the first. -/
theorem First.low {i : Nat} (first : First d i)
    (encoded : wordsAt d (i % 2 ^ 32) (1 + (recordLen d i - 4) / 4) =
      wordsAt d i (1 + (recordLen d i - 4) / 4)) : i < 2 ^ 32 := by
  by_contra high
  have aligned := first.aligned
  have inside := first.signed.inside
  have before : i % 2 ^ 32 < i := by omega
  have len : recordLen d i = 16 := by rw [recordLen, first.signed.header, emptyHeader]
  simp only [len, wordsAt_succ, List.cons.injEq] at encoded
  refine first.earlier (i % 2 ^ 32) before (by omega) ⟨by omega, ?_, ?_⟩
  · exact encoded.1.trans first.signed.header
  · exact encoded.2.1.trans first.signed.magic

theorem below_of_faithful {i : Nat} (first : First d i)
    (faithful : Faithful d ((startsFrom d i i).map fun o => (recordAt d o).stored)) :
    ∀ o ∈ startsFrom d i i, o < 2 ^ 32 := by
  by_cases found : startsFrom d i i = []
  · simp [found]
  obtain ⟨later, starts, _⟩ := startsFrom_cons found
  have chain := startsFrom_chain d i i
  have stored := (List.isChain_map _).1 faithful.consecutive
  rw [starts] at chain stored ⊢
  refine low_of_chain (first.low ?_) chain stored
  have own := faithful.encoded (recordAt d i).stored
    (List.mem_map.2 ⟨i, by rw [starts]; exact List.mem_cons_self, rfl⟩)
  exact own.trans (recordAt_encoded i).symm

end Faithful

/-- A record to be written: a type and words; its length is a multiple of four. -/
structure Entry where
  type : Nat
  payload : List Nat
  type_lt : type < 2 ^ 16
  words : ∀ word ∈ payload, word < 2 ^ 32

namespace Entry

def len (entry : Entry) : Nat := 4 + 4 * entry.payload.length

def encode (entry : Entry) : List Byte :=
  leBytes 4 (entry.type * 0x10000 + entry.len) ++ entry.payload.flatMap (leBytes 4)

theorem length_words (words : List Nat) : (words.flatMap (leBytes 4)).length = 4 * words.length := by
  induction words with
  | nil => rfl
  | cons word words ih =>
    rw [List.flatMap_cons, List.length_append, length_leBytes, ih, List.length_cons]
    omega

theorem length_encode (entry : Entry) : entry.encode.length = entry.len := by
  rw [encode, List.length_append, length_leBytes, length_words, len]

end Entry

def encodeAll (entries : List Entry) : List Byte := entries.flatMap Entry.encode

/-- The records as they stand in a string, from an offset on. -/
def placed : Nat → List Entry → List Record
  | _, [] => []
  | start, entry :: entries =>
    ⟨start, entry.type, entry.len, entry.payload⟩ :: placed (start + entry.len) entries

/-- The pairs of a tag, in order. -/
def poolsOf (entries : List Entry) (tag : Nat) : List Pool :=
  (entries.filter fun entry => entry.type = tag).filterMap fun entry => Pool.of entry.payload

/-- The EMPTY record with the magic. -/
def Entry.Opens (entry : Entry) : Prop :=
  entry.type = 1 ∧ entry.len = 16 ∧ entry.payload.head? = some biMagic

/-- A string with the records of a block in it, and none before. -/
structure Placed (d before : List Byte) (entries : List Entry) (after : List Byte) : Prop where
  layout : d = before ++ (encodeAll entries ++ after)
  aligned : before.length % 4 = 0
  opens : ∃ first ∈ entries.head?, first.Opens
  short : (encodeAll entries).length ≤ 0x2000
  earlier : ∀ j < before.length, j % 4 = 0 → ¬Signed d j
  ended : after = [] ∨ 4 ≤ after.length ∧ fieldAt after 0 2 < 4

section Placed

theorem fieldAt_append (front rest : List Byte) (offset width : Nat) :
    fieldAt (front ++ rest) (front.length + offset) width = fieldAt rest offset width := by
  rw [fieldAt, fieldAt, ← List.drop_drop, List.drop_left]

theorem fieldAt_here (front rest : List Byte) (width : Nat) :
    fieldAt (front ++ rest) front.length width = fieldAt rest 0 width :=
  fieldAt_append front rest 0 width

theorem wordsAt_placed {words : List Nat} (bounded : ∀ word ∈ words, word < 2 ^ 32) (front rest : List Byte) :
    wordsAt (front ++ (words.flatMap (leBytes 4) ++ rest)) front.length words.length = words := by
  induction words generalizing front with
  | nil => rfl
  | cons word words ih =>
    have later := ih (fun other member => bounded other (List.mem_cons_of_mem word member))
      (front ++ leBytes 4 word)
    rw [List.length_append, length_leBytes, List.append_assoc] at later
    rw [List.length_cons, wordsAt_succ, List.flatMap_cons, List.append_assoc, later, fieldAt_here,
      fieldAt_first]
    exact congrArg (· :: words) (Nat.mod_eq_of_lt (bounded word List.mem_cons_self))

/-- A record that is there is read as it was written. -/
theorem recordAt_placed (entry : Entry) (sized : entry.len < 0x10000) (front rest : List Byte) :
    recordAt (front ++ (entry.encode ++ rest)) front.length =
        ⟨front.length, entry.type, entry.len, entry.payload⟩ ∧
      Room (front ++ (entry.encode ++ rest)) front.length := by
  have bound := entry.type_lt
  have header : fieldAt (front ++ (entry.encode ++ rest)) front.length 4 =
      entry.type * 0x10000 + entry.len := by
    rw [fieldAt_here, Entry.encode, List.append_assoc, fieldAt_first]
    omega
  have len : recordLen (front ++ (entry.encode ++ rest)) front.length = entry.len := by
    rw [recordLen, header]
    omega
  have count : (entry.len - 4) / 4 = entry.payload.length := by
    rw [Entry.len]
    omega
  have payload := wordsAt_placed entry.words (front ++ leBytes 4 (entry.type * 0x10000 + entry.len)) rest
  rw [List.length_append, length_leBytes, List.append_assoc] at payload
  constructor
  · rw [recordAt, header, len, count, Entry.encode, List.append_assoc, payload]
    congr 1
    omega
  · have length := entry.length_encode
    have positive : 4 ≤ entry.len := Nat.le_add_right 4 _
    refine ⟨?_, by rw [len]; exact positive, ?_⟩
    · simp only [List.length_append]
      omega
    · rw [len]
      simp only [List.length_append]
      omega

/-- The walk goes through the records that were laid out, and stops after them. -/
theorem startsFrom_placed {i : Nat} {entries : List Entry} {front after : List Byte}
    (short : front.length + (encodeAll entries).length ≤ i + 0x2000)
    (ended : after = [] ∨ 4 ≤ after.length ∧ fieldAt after 0 2 < 4) (started : i ≤ front.length) :
    (startsFrom (front ++ (encodeAll entries ++ after)) i front.length).map
      (recordAt (front ++ (encodeAll entries ++ after))) = placed front.length entries := by
  induction entries generalizing front with
  | nil =>
    rw [encodeAll, List.flatMap_nil, List.nil_append, startsFrom, if_neg]
    · rfl
    rintro ⟨header, sized, _⟩
    rw [List.length_append] at header
    rcases ended with rfl | ⟨_, low⟩
    · rw [List.length_nil] at header
      omega
    · have len : recordLen (front ++ after) front.length = fieldAt after 0 2 := by
        rw [recordLen, fieldAt_here, fieldAt]
        exact (leValue_mod _ 2).trans (by rw [List.take_take]; rfl)
      omega
  | cons entry entries ih =>
    have length : (encodeAll (entry :: entries)).length = entry.len + (encodeAll entries).length := by
      rw [encodeAll, List.flatMap_cons, List.length_append, entry.length_encode, encodeAll]
    have front_length : (front ++ entry.encode).length = front.length + entry.len := by
      rw [List.length_append, entry.length_encode]
    have rest := @ih (front ++ entry.encode) (by omega) (by omega)
    rw [front_length, List.append_assoc] at rest
    obtain ⟨own, room⟩ := recordAt_placed entry (by omega) front (encodeAll entries ++ after)
    have len : recordLen (front ++ (entry.encode ++ (encodeAll entries ++ after))) front.length =
        entry.len := congrArg Record.len own
    rw [encodeAll, List.flatMap_cons, List.append_assoc, ← encodeAll, startsFrom,
      if_pos ⟨room.header, room.sized, room.inside⟩, len, if_neg (by omega), List.map_cons, own, rest,
      placed]

theorem pools_placed (start : Nat) (entries : List Entry) (tag : Nat) :
    ((placed start entries).filter fun record => record.type = tag).filterMap
      (fun record => Pool.of record.payload) =
      poolsOf entries tag := by
  induction entries generalizing start with
  | nil => rfl
  | cons entry entries ih =>
    rw [placed, poolsOf, List.filter_cons, List.filter_cons]
    by_cases tagged : entry.type = tag
    · simp only [tagged, decide_true, if_true, List.filterMap_cons]
      rw [ih, ← poolsOf]
    · simp only [tagged, decide_false, Bool.false_eq_true, if_false]
      rw [ih, ← poolsOf]

end Placed

theorem Placed.first {d before after : List Byte} {entries : List Entry}
    (there : Placed d before entries after) : First d before.length := by
  obtain ⟨entry, head, type, len, magic⟩ := there.opens
  obtain ⟨later, rfl⟩ := List.head?_eq_some_iff.1 head
  obtain ⟨words, payload⟩ := List.head?_eq_some_iff.1 magic
  have layout := there.layout
  rw [encodeAll, List.flatMap_cons, List.append_assoc, Entry.encode, List.append_assoc, payload,
    List.flatMap_cons, List.append_assoc, type, len] at layout
  refine ⟨there.aligned, ⟨?_, ?_, ?_⟩, there.earlier⟩
  · rw [layout]
    simp only [List.length_append, length_leBytes]
    omega
  · rw [layout, fieldAt_here, fieldAt_first]
    rfl
  · rw [layout, fieldAt_append, fieldAt_later (Nat.le_refl 4), Nat.sub_self, fieldAt_first]
    rfl

theorem Placed.starts {d before after : List Byte} {entries : List Entry}
    (there : Placed d before entries after) :
    (startsFrom d before.length before.length).map (recordAt d) = placed before.length entries := by
  have short := there.short
  rw [there.layout]
  exact startsFrom_placed (by omega) there.ended (Nat.le_refl _)

/-- What the call promises of a string: its records are where they say, and the records of a block
that is there are returned. -/
structure Located (d : List Byte) (found : Bool) (result : BootInfo) : Prop where
  faithful : found = true → Faithful d result.records
  returned : ∀ before entries after, Placed d before entries after →
    found = true ∧ result.records = placed before.length entries ∧
      ∀ tag, result.pools tag = poolsOf entries tag

/-- A call reads only inside the string. It keeps its promise exactly for the strings whose first
block has no record at 4 GiB or beyond. -/
theorem locate_iff (d : List Byte) (out : BootInfo) :
    ∃ found result, locate d out = some (found, result) ∧ (Located d found result ↔ Below d) := by
  rcases locateFrom_spec d out (Nat.zero_mod 4) (fun j before => absurd before (Nat.not_lt_zero j)) with
    ⟨i, first, done⟩ | ⟨missing, done⟩
  swap
  · refine ⟨false, out, done, fun _ i first => absurd first (missing i), fun _ => ⟨?_, ?_⟩⟩
    · exact fun found => nomatch found
    · exact fun before entries after there => absurd there.first (missing _)
  refine ⟨_, _, done, fun located other otherFirst => ?_, fun below => ⟨fun found => ?_, ?_⟩⟩
  · rw [otherFirst.unique first]
    by_cases found : startsFrom d i i = []
    · simp [found]
    · exact below_of_faithful first (located.faithful (by simp [found]))
  · exact faithful_of_low (startsFrom_room d i i) (below i first) (startsFrom_chain d i i)
  · intro before entries after there
    have same : before.length = i := there.first.unique first
    have stored : (startsFrom d i i).map (fun o => (recordAt d o).stored) =
        (startsFrom d i i).map (recordAt d) :=
      List.map_congr_left fun o member => stored_eq (below i first o member)
    have starts := there.starts
    rw [same] at starts ⊢
    refine ⟨?_, stored.trans starts, fun tag => ?_⟩
    · obtain ⟨entry, head, _⟩ := there.opens
      obtain ⟨later, rfl⟩ := List.head?_eq_some_iff.1 head
      cases empty : startsFrom d i i with
      | nil =>
        rw [empty] at starts
        cases starts
      | cons o rest => rfl
    · rw [BootInfo.pools, stored, starts, pools_placed]

/-- The first record of a block, alone. -/
def emptyRecord : Entry := ⟨1, [biMagic, 0, 0], by decide, by decide⟩

theorem placed_zeros {zeros : Nat} (aligned : zeros % 4 = 0) :
    Placed (List.replicate zeros 0 ++ (encodeAll [emptyRecord] ++ [])) (List.replicate zeros 0)
      [emptyRecord] [] where
  layout := rfl
  aligned := by rw [List.length_replicate, aligned]
  opens := ⟨emptyRecord, rfl, rfl, rfl, rfl⟩
  short := by decide
  earlier := by
    intro j before multiple signed
    rw [List.length_replicate] at before
    have zero : fieldAt (List.replicate zeros 0 ++ (encodeAll [emptyRecord] ++ [])) j 4 = 0 := by
      rw [fieldAt, List.drop_append_of_le_length (by rw [List.length_replicate]; omega),
        List.take_append_of_le_length (by rw [List.length_drop, List.length_replicate]; omega),
        List.drop_replicate, List.take_replicate, Nat.min_eq_left (by omega)]
      rfl
    exact absurd (zero.symm.trans signed.header) (by decide)
  ended := .inl rfl

theorem truncated_zeros {zeros : Nat} (aligned : zeros % 4 = 0) (high : 2 ^ 32 ≤ zeros) :
    ∃ found result,
      locate (List.replicate zeros 0 ++ (encodeAll [emptyRecord] ++ [])) {} = some (found, result) ∧
      ¬Located (List.replicate zeros 0 ++ (encodeAll [emptyRecord] ++ [])) found result := by
  have there := placed_zeros aligned
  rcases locateFrom_spec (List.replicate zeros 0 ++ (encodeAll [emptyRecord] ++ [])) {}
      (Nat.zero_mod 4) (fun j before => absurd before (Nat.not_lt_zero j)) with
    ⟨i, _, done⟩ | ⟨missing, _⟩
  swap
  · exact absurd there.first (missing _)
  refine ⟨_, _, done, fun located => ?_⟩
  obtain ⟨_, records, _⟩ := located.returned _ _ _ there
  rw [List.length_replicate] at records
  have member : (⟨zeros, 1, 16, [biMagic, 0, 0]⟩ : Record) ∈ placed zeros [emptyRecord] :=
    List.mem_cons_self
  rw [← records] at member
  obtain ⟨o, _, same⟩ := List.mem_map.1 member
  have low : o % 2 ^ 32 = zeros := congrArg Record.offset same
  omega

/-- A block behind 4 GiB of zeros is returned at offset zero. -/
theorem locate_truncates :
    ∃ found result,
      locate (List.replicate 0x100000000 0 ++ (encodeAll [emptyRecord] ++ [])) {} =
        some (found, result) ∧
      ¬Located (List.replicate 0x100000000 0 ++ (encodeAll [emptyRecord] ++ [])) found result :=
  truncated_zeros (by decide) (by decide)

end ZeeboLle.Boot
