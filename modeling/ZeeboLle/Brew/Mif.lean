import ZeeboLle.Paging.Bytes
import ZeeboLle.Unicorn.Memory
import Mathlib.Tactic.MkIffOfInductiveProp

/-! The structural parser of MIF files. A read outside the file has no value, so a parse that
returns stayed inside. Words of the file are the numbers they encode. -/
namespace ZeeboLle.Brew

open Paging Unicorn

structure MifAppletInfo where
  clsid : Nat := 0
  name : List Byte := []
  modFile : List Byte := []
  valid : Bool := false
deriving DecidableEq

namespace MifParser

def kMagic : Nat := 0x0011
def kHeaderSize : Nat := 0x20
def kAppletRecordSize : Nat := 20

def read16 (d : List Byte) (p : Nat) : Option Nat :=
  if p + 2 ≤ d.length then some (fieldAt d p 2) else none

def read32 (d : List Byte) (p : Nat) : Option Nat :=
  if p + 4 ≤ d.length then some (fieldAt d p 4) else none

/-- The record of one section; a later match does not replace an earlier one. -/
def record (d : List Byte) (previous next : Nat) (info : MifAppletInfo) : Option MifAppletInfo :=
  if next - previous = kAppletRecordSize then do
    let second ← read32 d (previous + 4)
    if second = 0 then do
      let fourth ← read32 d (previous + 12)
      if fourth = 0 then do
        let clsid ← read32 d previous
        if clsid ≠ 0 ∧ info.valid = false then some { info with clsid, valid := true } else some info
      else some info
    else some info
  else some info

/-- The loop over the sections; nothing is left of the result at a bad bound. -/
def sections (d : List Byte) (tableOffset : Nat) :
    Nat → Nat → Nat → MifAppletInfo → Option (Option MifAppletInfo)
  | 0, _, _, info => some (some info)
  | left + 1, i, previous, info => do
    let next ← read32 d (tableOffset + (i + 1) * 4)
    if next < previous ∨ d.length < next then some none
    else do
      let info ← record d previous next info
      sections d tableOffset left (i + 1) next info

def dotMod : List Byte := [0x2e, 0x6d, 0x6f, 0x64]

/-- Back over printable bytes. -/
def nameStart (d : List Byte) : Nat → Option Nat
  | 0 => some 0
  | start + 1 => do
    let byte ← d[start]?
    if 0x20 ≤ byte ∧ byte ≤ 0x7e then nameStart d start else some (start + 1)

/-- So many bytes from an offset on. -/
def bytesAt (d : List Byte) (p count : Nat) : Option (List Byte) :=
  if p + count ≤ d.length then some ((d.drop p).take count) else none

/-- The name before the first `.mod`, and that. -/
def moduleName (d : List Byte) (i : Nat) : Option (List Byte) :=
  if i + 4 ≤ d.length then do
    let suffix ← bytesAt d i 4
    if suffix ≠ dotMod then moduleName d (i + 1)
    else do
      let start ← nameStart d i
      bytesAt d start (i + 4 - start)
  else some []
termination_by d.length - i

/-- What is returned after the sections: the default at a bad bound, else with the module's name. -/
def finish (d : List Byte) : Option MifAppletInfo → Option MifAppletInfo
  | none => some {}
  | some info => do
    let modFile ← moduleName d 0
    some { info with modFile }

def parse (d : List Byte) : Option MifAppletInfo :=
  if d.length < kHeaderSize then some {}
  else do
    let magic ← read16 d 0
    if magic ≠ kMagic then some {}
    else do
      let tableOffset ← read32 d 0x10
      let sectionCount ← read32 d 0x14
      if sectionCount = 0 ∨ d.length / 4 < sectionCount then some {}
      else if d.length < tableOffset ∨ (d.length - tableOffset) / 4 < sectionCount + 1 then some {}
      else do
        let previous ← read32 d tableOffset
        if d.length < previous then some {}
        else do
          let parsed ← sections d tableOffset sectionCount 0 previous {}
          finish d parsed

end MifParser

namespace Mif

variable (d : List Byte)

def tableOffset : Nat := fieldAt d 0x10 4

def sectionCount : Nat := fieldAt d 0x14 4

/-- Where a section starts, and the one before it ends. -/
def bound (k : Nat) : Nat := fieldAt d (tableOffset d + k * 4) 4

/-- A header and a table of bounds, all inside the file. -/
structure Table : Prop where
  header : 0x20 ≤ d.length
  magic : fieldAt d 0 2 = 0x0011
  count : 1 ≤ sectionCount d ∧ sectionCount d ≤ d.length / 4
  inside : tableOffset d + 4 * (sectionCount d + 1) ≤ d.length

/-- The bounds do not decrease, and none is past the end. -/
structure Bounds : Prop where
  inside : ∀ k ≤ sectionCount d, bound d k ≤ d.length
  ordered : ∀ k < sectionCount d, bound d k ≤ bound d (k + 1)

/-- A section is an applet's record. -/
@[mk_iff] structure Applet (k : Nat) : Prop where
  size : bound d (k + 1) - bound d k = 20
  clsid : fieldAt d (bound d k) 4 ≠ 0
  second : fieldAt d (bound d k + 4) 4 = 0
  fourth : fieldAt d (bound d k + 12) 4 = 0

instance (k : Nat) : Decidable (Applet d k) := decidable_of_iff' _ (applet_iff d k)

variable {d : List Byte}

theorem Table.bound_inside (table : Table d) {k : Nat} (within : k ≤ sectionCount d) :
    tableOffset d + k * 4 + 4 ≤ d.length := by
  have inside := table.inside
  omega

/-- What is known after one more section. -/
def held (d : List Byte) (info : MifAppletInfo) (k : Nat) : MifAppletInfo :=
  if Applet d k ∧ info.valid = false then { info with clsid := fieldAt d (bound d k) 4, valid := true }
  else info

theorem read32_inside {p : Nat} (inside : p + 4 ≤ d.length) :
    MifParser.read32 d p = some (fieldAt d p 4) := if_pos inside

theorem record_eq {k : Nat} (ordered : bound d k ≤ bound d (k + 1)) (inside : bound d (k + 1) ≤ d.length)
    (info : MifAppletInfo) :
    MifParser.record d (bound d k) (bound d (k + 1)) info = some (held d info k) := by
  rw [MifParser.record, held, MifParser.kAppletRecordSize]
  by_cases size : bound d (k + 1) - bound d k = 20
  swap
  · rw [if_neg size, if_neg fun both => size both.1.size]
  rw [if_pos size, read32_inside (by omega), read32_inside (by omega), read32_inside (by omega)]
  simp only [Option.bind_eq_bind, Option.bind_some]
  by_cases second : fieldAt d (bound d k + 4) 4 = 0
  swap
  · rw [if_neg second, if_neg fun both => second both.1.second]
  rw [if_pos second]
  by_cases fourth : fieldAt d (bound d k + 12) 4 = 0
  swap
  · rw [if_neg fourth, if_neg fun both => fourth both.1.fourth]
  rw [if_pos fourth]
  by_cases fresh : fieldAt d (bound d k) 4 ≠ 0 ∧ info.valid = false
  · rw [if_pos fresh, if_pos ⟨⟨size, fresh.1, second, fourth⟩, fresh.2⟩]
  · rw [if_neg fresh, if_neg fun both => fresh ⟨both.1.clsid, both.2⟩]

/-- The loop goes through all sections, or finds a bad bound. -/
theorem sections_spec (table : Table d) {left i : Nat} (reach : i + left = sectionCount d)
    (info : MifAppletInfo) :
    ((∀ k, i ≤ k → k < sectionCount d → bound d k ≤ bound d (k + 1) ∧ bound d (k + 1) ≤ d.length) ∧
        MifParser.sections d (tableOffset d) left i (bound d i) info =
          some (some ((List.range' i left).foldl (held d) info))) ∨
      ((∃ k, i ≤ k ∧ k < sectionCount d ∧ ¬(bound d k ≤ bound d (k + 1) ∧ bound d (k + 1) ≤ d.length)) ∧
        MifParser.sections d (tableOffset d) left i (bound d i) info = some none) := by
  induction left generalizing i info with
  | zero => exact .inl ⟨fun k later before => absurd before (by omega), rfl⟩
  | succ left ih =>
    rw [MifParser.sections, read32_inside (table.bound_inside (k := i + 1) (by omega)),
      Option.bind_eq_bind, Option.bind_some, ← bound]
    by_cases good : bound d i ≤ bound d (i + 1) ∧ bound d (i + 1) ≤ d.length
    · rw [if_neg (by omega), record_eq good.1 good.2, Option.bind_eq_bind, Option.bind_some]
      rcases ih (i := i + 1) (by omega) (held d info i) with ⟨rest, done⟩ | ⟨⟨k, later, before, bad⟩, done⟩
      · refine .inl ⟨fun k later before => ?_, done⟩
        rcases Nat.eq_or_lt_of_le later with rfl | later
        · exact good
        · exact rest k later before
      · exact .inr ⟨⟨k, by omega, before, bad⟩, done⟩
    · rw [if_pos (by omega)]
      exact .inr ⟨⟨i, Nat.le_refl i, by omega, good⟩, rfl⟩

/-- A record found before stays. -/
theorem foldl_held_valid (ks : List Nat) {info : MifAppletInfo} (valid : info.valid = true) :
    ks.foldl (held d) info = info := by
  induction ks with
  | nil => rfl
  | cons k ks ih => rw [List.foldl_cons, held, if_neg (by simp [valid]), ih]

/-- The first record of an applet counts. -/
theorem foldl_held (left i : Nat) (info : MifAppletInfo) (fresh : info.valid = false) :
    (∃ k, i ≤ k ∧ k < i + left ∧ (∀ j, i ≤ j → j < k → ¬Applet d j) ∧ Applet d k ∧
        (List.range' i left).foldl (held d) info =
          { info with clsid := fieldAt d (bound d k) 4, valid := true }) ∨
      ((∀ k, i ≤ k → k < i + left → ¬Applet d k) ∧ (List.range' i left).foldl (held d) info = info) := by
  induction left generalizing i with
  | zero => exact .inr ⟨fun k later before => absurd before (by omega), rfl⟩
  | succ left ih =>
    rw [List.range'_succ, List.foldl_cons, held]
    by_cases applet : Applet d i
    · rw [if_pos ⟨applet, fresh⟩]
      exact .inl ⟨i, Nat.le_refl i, by omega, fun j later before => absurd before (by omega), applet,
        foldl_held_valid _ rfl⟩
    · rw [if_neg fun both => applet both.1]
      have skip : ∀ j, i ≤ j → (i + 1 ≤ j → ¬Applet d j) → ¬Applet d j := by
        intro j later rest
        rcases Nat.eq_or_lt_of_le later with rfl | later
        · exact applet
        · exact rest later
      rcases ih (i + 1) with ⟨k, later, before, missing, own, fold⟩ | ⟨missing, fold⟩
      · exact .inl ⟨k, by omega, by omega,
          fun j after earlier => skip j after fun later => missing j later earlier, own, fold⟩
      · exact .inr ⟨fun k after earlier => skip k after fun later => missing k later (by omega), fold⟩

theorem nameStart_returns {start : Nat} (inside : start ≤ d.length) :
    ∃ first, first ≤ start ∧ MifParser.nameStart d start = some first := by
  induction start with
  | zero => exact ⟨0, Nat.le_refl 0, rfl⟩
  | succ start ih =>
    rw [MifParser.nameStart, List.getElem?_eq_getElem inside]
    simp only [Option.bind_eq_bind, Option.bind_some]
    split
    · obtain ⟨first, before, done⟩ := ih (by omega)
      exact ⟨first, by omega, done⟩
    · exact ⟨start + 1, Nat.le_refl _, rfl⟩

theorem moduleName_returns (d : List Byte) (i : Nat) : ∃ name, MifParser.moduleName d i = some name := by
  induction left : d.length - i using Nat.strongRecOn generalizing i with
  | ind left ih =>
    rw [MifParser.moduleName]
    by_cases inside : i + 4 ≤ d.length
    swap
    · exact ⟨[], if_neg inside⟩
    rw [if_pos inside, MifParser.bytesAt, if_pos inside, Option.bind_eq_bind, Option.bind_some]
    split
    · exact ih _ (by omega) (i + 1) rfl
    · have reached : i ≤ d.length := by omega
      obtain ⟨first, before, done⟩ := nameStart_returns reached
      rw [done, Option.bind_eq_bind, Option.bind_some, MifParser.bytesAt, if_pos (by omega)]
      exact ⟨_, rfl⟩

end Mif

namespace MifParser

open Mif

/-- A file without a table is refused before anything is known. -/
theorem parse_tableless {d : List Byte} (tableless : ¬Table d) : parse d = some {} := by
  rw [parse, kHeaderSize]
  by_cases short : d.length < 0x20
  · rw [if_pos short]
  rw [if_neg short, read16, if_pos (by omega), read32_inside (by omega), read32_inside (by omega),
    ← tableOffset, ← sectionCount, kMagic]
  simp only [Option.bind_eq_bind, Option.bind_some]
  by_cases magic : fieldAt d 0 2 ≠ 0x0011
  · rw [if_pos magic]
  rw [if_neg magic]
  by_cases count : sectionCount d = 0 ∨ d.length / 4 < sectionCount d
  · rw [if_pos count]
  rw [if_neg count]
  by_cases outside : d.length < tableOffset d ∨ (d.length - tableOffset d) / 4 < sectionCount d + 1
  · rw [if_pos outside]
  · exact absurd ⟨by omega, not_not.1 magic, by omega, by omega⟩ tableless

theorem parse_table {d : List Byte} (table : Table d) :
    parse d =
      if d.length < bound d 0 then some {}
      else (sections d (tableOffset d) (sectionCount d) 0 (bound d 0) {}).bind (finish d) := by
  obtain ⟨header, magic, count, inside⟩ := table
  have first : fieldAt d (tableOffset d) 4 = bound d 0 := by rw [bound, Nat.zero_mul, Nat.add_zero]
  rw [parse, kHeaderSize, if_neg (by omega), read16, if_pos (by omega), read32_inside (by omega),
    read32_inside (by omega), ← tableOffset, ← sectionCount, kMagic]
  simp only [Option.bind_eq_bind, Option.bind_some]
  rw [if_neg (not_not_intro magic), if_neg (by omega), if_neg (by omega), read32_inside (by omega),
    Option.bind_some, first]

/-- With a table, a bad bound leaves nothing; otherwise the sections are looked through. -/
theorem parse_sections (table : Table d) :
    (¬Bounds d ∧ parse d = some {}) ∨
      (Bounds d ∧ ∃ modFile, parse d =
        some { (List.range' 0 (sectionCount d)).foldl (held d) {} with modFile }) := by
  rw [parse_table table]
  by_cases outside : d.length < bound d 0
  · left
    exact ⟨fun bounds => absurd (bounds.inside 0 (Nat.zero_le _)) (Nat.not_le.2 outside), if_pos outside⟩
  rw [if_neg outside]
  rcases sections_spec table (Nat.zero_add (sectionCount d)) {} with
    ⟨good, done⟩ | ⟨⟨k, _, before, unordered⟩, done⟩
  · have bounds : Bounds d :=
      { inside := by
          intro k within
          cases k with
          | zero => exact Nat.not_lt.1 outside
          | succ k => exact (good k (Nat.zero_le k) within).2
        ordered := fun k before => (good k (Nat.zero_le k) before).1 }
    obtain ⟨modFile, named⟩ := moduleName_returns d 0
    right
    refine ⟨bounds, modFile, ?_⟩
    rw [done, Option.bind_some, finish, named]
    rfl
  · left
    refine ⟨fun bounds => unordered ⟨bounds.ordered k before, bounds.inside (k + 1) before⟩, ?_⟩
    rw [done]
    rfl

/-- The parser reads only inside the file. It accepts a file with a table of bounds, none of them
bad, where some section is an applet's record; the first such record gives the class, and a bad
bound leaves nothing of the result. -/
theorem parse_spec (d : List Byte) :
    ∃ info, parse d = some info ∧
      (info.valid = true ↔ Table d ∧ Bounds d ∧ ∃ k < sectionCount d, Applet d k) ∧
      (Table d → Bounds d → ∀ k < sectionCount d, Applet d k → (∀ j < k, ¬Applet d j) →
        info.clsid = fieldAt d (bound d k) 4) ∧
      (¬(Table d ∧ Bounds d) → info = {}) := by
  by_cases table : Table d
  swap
  · exact ⟨{}, parse_tableless table, by simp [table], fun present => absurd present table, fun _ => rfl⟩
  rcases parse_sections table with ⟨unbounded, parsed⟩ | ⟨bounds, modFile, parsed⟩
  · exact ⟨{}, parsed, by simp [unbounded], fun _ bounds => absurd bounds unbounded, fun _ => rfl⟩
  refine ⟨_, parsed, ?_⟩
  rcases foldl_held (d := d) (sectionCount d) 0 {} rfl with
    ⟨k, _, before, missing, applet, fold⟩ | ⟨missing, fold⟩
  · rw [fold]
    refine ⟨⟨fun _ => ⟨table, bounds, k, by omega, applet⟩, fun _ => rfl⟩, ?_,
      fun bad => absurd ⟨table, bounds⟩ bad⟩
    intro _ _ other within own first
    have same : other = k := by
      rcases Nat.lt_trichotomy other k with less | same | more
      · exact absurd own (missing other (Nat.zero_le _) less)
      · exact same
      · exact absurd applet (first k more)
    rw [same]
  · rw [fold]
    refine ⟨⟨fun valid => (nomatch valid), ?_⟩, ?_, fun bad => absurd ⟨table, bounds⟩ bad⟩
    · rintro ⟨_, _, k, within, applet⟩
      exact absurd applet (missing k (Nat.zero_le k) (by omega))
    · intro _ _ k within applet _
      exact absurd applet (missing k (Nat.zero_le k) (by omega))

end MifParser

end ZeeboLle.Brew
