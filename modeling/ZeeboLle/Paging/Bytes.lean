import Mathlib.Data.BitVec
import Mathlib.Logic.Function.Basic

/-! Runs of bytes in a store of cells. An access resolves its addresses one by one; what it
reaches is the run of cells up to the first address that resolves to none. Values are read
and written little-endian. -/
namespace ZeeboLle.Paging

section Store

variable {κ β : Type} [DecidableEq κ]

/-- Of two writes to one cell the later counts. -/
def writeAll (store : κ → β) (writes : List (κ × β)) : κ → β :=
  writes.foldl (fun store write => Function.update store write.1 write.2) store

@[simp] theorem writeAll_nil (store : κ → β) : writeAll store [] = store := rfl

@[simp] theorem writeAll_cons (store : κ → β) (write : κ × β) (writes : List (κ × β)) :
    writeAll store (write :: writes) = writeAll (Function.update store write.1 write.2) writes := rfl

theorem writeAll_outside {store : κ → β} {writes : List (κ × β)} {cell : κ}
    (outside : ∀ write ∈ writes, write.1 ≠ cell) : writeAll store writes cell = store cell := by
  induction writes generalizing store with
  | nil => rfl
  | cons write writes ih =>
    rw [writeAll_cons, ih fun later member => outside later (List.mem_cons_of_mem _ member)]
    exact Function.update_of_ne (outside write (by simp)).symm _ _

/-- A written cell holds what the last write to it says, whatever the store. -/
theorem exists_last_write {writes : List (κ × β)} {cell : κ} (hit : ∃ write ∈ writes, write.1 = cell) :
    ∃ write ∈ writes, write.1 = cell ∧ ∀ store, writeAll store writes cell = write.2 := by
  induction writes with
  | nil => simp at hit
  | cons write writes ih =>
    by_cases later : ∃ write ∈ writes, write.1 = cell
    · obtain ⟨last, member, same, holds⟩ := ih later
      exact ⟨last, List.mem_cons_of_mem _ member, same, fun store => holds _⟩
    · have missed : ∀ write ∈ writes, write.1 ≠ cell := fun other member same =>
        later ⟨other, member, same⟩
      have here : write.1 = cell := by
        obtain ⟨other, member, same⟩ := hit
        rcases List.mem_cons.mp member with rfl | member
        · exact same
        · exact absurd same (missed other member)
      refine ⟨write, by simp, here, fun store => ?_⟩
      rw [writeAll_cons, writeAll_outside missed, ← here, Function.update_self]

/-- Where all writes to a cell agree, it holds what they say. -/
theorem writeAll_agreed {store : κ → β} {writes : List (κ × β)} {cell : κ} {value : β}
    (hit : ∃ write ∈ writes, write.1 = cell)
    (agreed : ∀ write ∈ writes, write.1 = cell → write.2 = value) :
    writeAll store writes cell = value := by
  obtain ⟨write, member, same, holds⟩ := exists_last_write hit
  rw [holds, agreed write member same]

/-- What a written cell holds does not depend on the store. -/
theorem writeAll_hit {store other : κ → β} {writes : List (κ × β)} {cell : κ}
    (hit : ∃ write ∈ writes, write.1 = cell) :
    writeAll store writes cell = writeAll other writes cell := by
  obtain ⟨write, _, _, holds⟩ := exists_last_write hit
  rw [holds, holds]

omit [DecidableEq κ] in
theorem exists_zip {cells : List κ} {values : List β} (enough : cells.length ≤ values.length)
    {cell : κ} (member : cell ∈ cells) : ∃ write ∈ cells.zip values, write.1 = cell := by
  rw [← List.map_fst_zip enough] at member
  obtain ⟨write, found, same⟩ := List.mem_map.mp member
  exact ⟨write, found, same⟩

/-- Cells that differ hold what was written to each. -/
theorem map_writeAll {store : κ → β} {cells : List κ} {values : List β} (distinct : cells.Nodup)
    (same : cells.length = values.length) :
    cells.map (writeAll store (cells.zip values)) = values := by
  induction cells generalizing store values with
  | nil => exact (List.eq_nil_of_length_eq_zero same.symm).symm
  | cons cell cells ih =>
    obtain ⟨fresh, rest⟩ := List.nodup_cons.mp distinct
    cases values with
    | nil => cases same
    | cons value values =>
      have outside : ∀ write ∈ cells.zip values, write.1 ≠ cell := by
        rintro write member rfl
        exact fresh (List.of_mem_zip member).1
      rw [List.zip_cons_cons, writeAll_cons, List.map_cons, writeAll_outside outside,
        Function.update_self, ih rest (Nat.succ.inj same)]

/-- Writes to cells that are written again leave no trace. -/
theorem writeAll_absorb {store : κ → β} {first second : List (κ × β)}
    (again : ∀ write ∈ first, ∃ later ∈ second, later.1 = write.1) :
    writeAll (writeAll store first) second = writeAll store second := by
  funext cell
  by_cases hit : ∃ write ∈ second, write.1 = cell
  · exact writeAll_hit hit
  · have missed : ∀ write ∈ second, write.1 ≠ cell := fun other member same =>
      hit ⟨other, member, same⟩
    rw [writeAll_outside missed, writeAll_outside missed]
    refine writeAll_outside fun write member same => ?_
    obtain ⟨later, found, here⟩ := again write member
    exact missed later found (here.trans same)

end Store

section Reach

variable {κ : Type} {lookup : Nat → Option κ} {start count index : Nat}

/-- The cells of an access up to the first address that has none. -/
def reach (lookup : Nat → Option κ) (start : Nat) : Nat → List κ
  | 0 => []
  | count + 1 =>
    match lookup start with
    | none => []
    | some cell => cell :: reach lookup (start + 1) count

theorem length_reach_le (lookup : Nat → Option κ) (start count : Nat) :
    (reach lookup start count).length ≤ count := by
  induction count generalizing start with
  | zero => simp [reach]
  | succ count ih =>
    rw [reach]
    split
    · simp
    · simpa using ih (start + 1)

theorem getElem?_reach (below : index < (reach lookup start count).length) :
    (reach lookup start count)[index]? = lookup (start + index) := by
  induction count generalizing start index with
  | zero => simp [reach] at below
  | succ count ih =>
    rw [reach] at below ⊢
    cases found : lookup start with
    | none => simp [found] at below
    | some cell =>
      simp only [found] at below ⊢
      cases index with
      | zero => simp [found]
      | succ index =>
        rw [List.getElem?_cons_succ, ih (by simpa using below)]
        congr 1
        omega

/-- A run that stops early stops at an address without a cell. -/
theorem lookup_stop (short : (reach lookup start count).length < count) :
    lookup (start + (reach lookup start count).length) = none := by
  induction count generalizing start with
  | zero => simp at short
  | succ count ih =>
    rw [reach] at short ⊢
    cases found : lookup start with
    | none => simpa using found
    | some cell =>
      simp only [found, List.length_cons] at short ⊢
      have stop := @ih (start + 1) (by omega)
      rwa [Nat.add_assoc, Nat.add_comm 1] at stop

theorem reach_full_iff :
    (reach lookup start count).length = count ↔
      ∀ index, index < count → (lookup (start + index)).isSome = true := by
  constructor
  · intro full index below
    have inside : index < (reach lookup start count).length := by omega
    rw [← getElem?_reach inside, List.getElem?_eq_getElem inside]
    rfl
  · intro every
    by_contra short
    have short : (reach lookup start count).length < count :=
      lt_of_le_of_ne (length_reach_le lookup start count) short
    have missing := every _ short
    rw [lookup_stop short] at missing
    cases missing

/-- An access all of whose addresses resolve. -/
theorem reach_eq_map {cells : Nat → κ}
    (every : ∀ index, index < count → lookup (start + index) = some (cells index)) :
    reach lookup start count = (List.range count).map cells := by
  have full : (reach lookup start count).length = count :=
    reach_full_iff.mpr fun index below => by rw [every index below]; rfl
  apply List.ext_getElem?
  intro index
  by_cases below : index < count
  · rw [getElem?_reach (by omega), every index below, List.getElem?_map, List.getElem?_range below]
    rfl
  · rw [List.getElem?_eq_none (by omega), List.getElem?_eq_none (by simp; omega)]

end Reach

def leBytes : Nat → Nat → List (BitVec 8)
  | 0, _ => []
  | count + 1, value => BitVec.ofNat 8 value :: leBytes count (value / 0x100)

def leValue : List (BitVec 8) → Nat
  | [] => 0
  | byte :: bytes => byte.toNat + 0x100 * leValue bytes

@[simp] theorem length_leBytes (count value : Nat) : (leBytes count value).length = count := by
  induction count generalizing value with
  | zero => rfl
  | succ count ih => simp [leBytes, ih]

theorem leValue_leBytes (count value : Nat) :
    leValue (leBytes count value) = value % 0x100 ^ count := by
  induction count generalizing value with
  | zero => simp [leBytes, leValue, Nat.mod_one]
  | succ count ih =>
    rw [leBytes, leValue, ih, Nat.pow_succ, Nat.mul_comm _ 0x100, Nat.mod_mul]
    rfl

theorem leBytes_leValue (bytes : List (BitVec 8)) :
    leBytes bytes.length (leValue bytes) = bytes := by
  induction bytes with
  | nil => rfl
  | cons byte bytes ih =>
    have bound := byte.isLt
    have rest : (byte.toNat + 0x100 * leValue bytes) / 0x100 = leValue bytes := by omega
    have low : BitVec.ofNat 8 (byte.toNat + 0x100 * leValue bytes) = byte := by
      apply BitVec.eq_of_toNat_eq
      rw [BitVec.toNat_ofNat]
      omega
    rw [List.length_cons, leValue, leBytes, rest, ih, low]

theorem leBytes_mod (count value : Nat) :
    leBytes count (value % 0x100 ^ count) = leBytes count value := by
  have back := leBytes_leValue (leBytes count value)
  rwa [length_leBytes, leValue_leBytes] at back

theorem leBytes_add (first second value : Nat) :
    leBytes (first + second) value = leBytes first value ++ leBytes second (value / 0x100 ^ first) := by
  induction first generalizing value with
  | zero => simp [leBytes]
  | succ first ih =>
    rw [Nat.add_right_comm, leBytes, leBytes, ih, Nat.div_div_eq_div_mul, List.cons_append,
      Nat.pow_succ, Nat.mul_comm 0x100]

/-- Truncation keeps the first bytes. -/
theorem leValue_mod (bytes : List (BitVec 8)) (count : Nat) :
    leValue bytes % 0x100 ^ count = leValue (bytes.take count) := by
  induction count generalizing bytes with
  | zero => simp [leValue, Nat.mod_one]
  | succ count ih =>
    cases bytes with
    | nil => simp [leValue]
    | cons byte bytes =>
      have bound := byte.isLt
      have low : (byte.toNat + 0x100 * leValue bytes) % 0x100 = byte.toNat := by omega
      have high : (byte.toNat + 0x100 * leValue bytes) / 0x100 = leValue bytes := by omega
      rw [leValue, Nat.pow_succ, Nat.mul_comm _ 0x100, Nat.mod_mul, low, high, ih, List.take_succ_cons,
        leValue]

theorem leValue_lt (bytes : List (BitVec 8)) : leValue bytes < 0x100 ^ bytes.length := by
  have whole := leValue_mod bytes bytes.length
  rw [List.take_length] at whole
  rw [← whole]
  exact Nat.mod_lt _ (Nat.pow_pos (by omega))

theorem leValue_inj {left right : List (BitVec 8)} (same : left.length = right.length) :
    leValue left = leValue right ↔ left = right := by
  constructor
  · intro equal
    rw [← leBytes_leValue left, ← leBytes_leValue right, same, equal]
  · rintro rfl
    rfl

/-- The little-endian field at an offset of a record. -/
def fieldAt (record : List (BitVec 8)) (offset width : Nat) : Nat :=
  leValue ((record.drop offset).take width)

@[simp] theorem fieldAt_first (width value : Nat) (rest : List (BitVec 8)) :
    fieldAt (leBytes width value ++ rest) 0 width = value % 0x100 ^ width := by
  rw [fieldAt, List.drop_zero, List.take_left' (length_leBytes width value), leValue_leBytes]

@[simp] theorem fieldAt_later {width offset : Nat} (behind : width ≤ offset) (value next : Nat)
    (rest : List (BitVec 8)) :
    fieldAt (leBytes width value ++ rest) offset next = fieldAt rest (offset - width) next := by
  rw [fieldAt, List.drop_append, List.drop_of_length_le (by simpa using behind), List.nil_append,
    length_leBytes, fieldAt]

/-- The bits under a mask and the others make up the word. -/
theorem toNat_and_add_not {width : Nat} (word mask : BitVec width) :
    (word &&& mask).toNat + (word &&& ~~~mask).toNat = word.toNat := by
  have apart : (word &&& mask) &&& (word &&& ~~~mask) = BitVec.ofNat width 0 := by
    ext index below
    rw [BitVec.getElem_and, BitVec.getElem_and, BitVec.getElem_and, BitVec.getElem_not,
      BitVec.getElem_zero]
    cases word[index] <;> cases mask[index] <;> rfl
  have whole : (word &&& mask) ||| (word &&& ~~~mask) = word := by
    ext index below
    rw [BitVec.getElem_or, BitVec.getElem_and, BitVec.getElem_and, BitVec.getElem_not]
    cases word[index] <;> cases mask[index] <;> rfl
  rw [← BitVec.toNat_add_of_and_eq_zero apart, BitVec.add_eq_or_of_and_eq_zero _ _ apart, whole]

theorem toNat_and_low {width low : Nat} (within : low ≤ width) (word : BitVec width) :
    (word &&& BitVec.ofNat width (2 ^ low - 1)).toNat = word.toNat % 2 ^ low := by
  have small : 2 ^ low - 1 < 2 ^ width :=
    Nat.lt_of_lt_of_le (Nat.sub_lt (Nat.two_pow_pos low) Nat.one_pos)
      (Nat.pow_le_pow_right (by decide) within)
  rw [BitVec.toNat_and, BitVec.toNat_ofNat, Nat.mod_eq_of_lt small]
  exact Nat.and_two_pow_sub_one_eq_mod _ low

/-- Clearing the low bits rounds down. -/
theorem toNat_clear_low {width low : Nat} (within : low ≤ width) (word : BitVec width) :
    (word &&& ~~~BitVec.ofNat width (2 ^ low - 1)).toNat = word.toNat / 2 ^ low * 2 ^ low := by
  have parts := toNat_and_add_not word (BitVec.ofNat width (2 ^ low - 1))
  have whole := Nat.mod_add_div' word.toNat (2 ^ low)
  rw [toNat_and_low within] at parts
  omega

end ZeeboLle.Paging
