import ZeeboLle.Linux.Ehci
import Mathlib.Tactic.MkIffOfInductiveProp

/-! The buffer of a qTD: the bytes of a transfer go to its pages, one after another. -/
namespace ZeeboLle.Linux

open Unicorn Paging

/-- The offset into the first page. -/
def qtdOffset (bufs : List Word) : Nat := (qtdBuf bufs 0 &&& 0xfff#32).toNat

/-- Where a byte of the transfer goes: the pages follow one another. -/
def qtdCell (bufs : List Word) (index : Nat) : Word :=
  let position := qtdOffset bufs + index
  (qtdBuf bufs (position / 0x1000) &&& ~~~0xfff#32) + BitVec.ofNat 32 (position % 0x1000)

def qtdCells (bufs : List Word) (start count : Nat) : List Word :=
  (List.range' start count).map (qtdCell bufs)

/-- Memory after a transfer of bytes from the device. -/
def scatter (ram : FlatMemory) (bufs : List Word) (bytes : List Byte) : FlatMemory :=
  writeAll ram ((qtdCells bufs 0 bytes.length).zip bytes)

/-- A buffer in memory, and no larger than five pages. -/
@[mk_iff]
structure QtdFits (mapped : Mapping) (bufs : List Word) (total : Nat) : Prop where
  capacity : qtdOffset bufs + total ≤ 5 * 0x1000
  backed : ∀ index < total, mapped ((qtdCell bufs index).extractLsb' 12 20) = true

instance (mapped : Mapping) (bufs : List Word) (total : Nat) : Decidable (QtdFits mapped bufs total) :=
  decidable_of_iff' _ (qtdFits_iff ..)

/-- The bytes before a page. -/
def pageStart (bufs : List Word) (page : Nat) : Nat := page * 0x1000 - qtdOffset bufs

variable {mapped : Mapping} {bufs : List Word}

theorem low_toNat (word : Word) : (word &&& 0xfff#32).toNat = word.toNat % 0x1000 :=
  @toNat_and_low 32 12 (by decide) word

/-- An address is the start of its page and an offset. -/
theorem page_toNat (word : Word) :
    (word &&& ~~~0xfff#32).toNat + word.toNat % 0x1000 = word.toNat := by
  rw [← low_toNat, Nat.add_comm]
  exact toNat_and_add_not word 0xfff#32

theorem qtdOffset_eq (bufs : List Word) : qtdOffset bufs = (qtdBuf bufs 0).toNat % 0x1000 := low_toNat _

theorem qtdOffset_lt (bufs : List Word) : qtdOffset bufs < 0x1000 := by
  rw [qtdOffset_eq]
  exact Nat.mod_lt _ (by decide)

/-- The next page starts where this one ends. -/
theorem pageStart_succ (bufs : List Word) (page : Nat) :
    pageStart bufs (page + 1) = pageStart bufs page + qtdRoom bufs page := by
  have offset := qtdOffset_lt bufs
  unfold pageStart qtdRoom
  cases page with
  | zero =>
    rw [if_pos rfl]
    change _ = _ + (0x1000 - qtdOffset bufs)
    omega
  | succ page =>
    rw [if_neg (by omega)]
    omega

/-- A byte of a page is as far from the start of the page as it is from its first byte. -/
theorem qtdCell_page {page index : Nat} (inside : index < qtdRoom bufs page) :
    qtdCell bufs (pageStart bufs page + index) = qtdBase bufs page + BitVec.ofNat 32 index := by
  have offset := qtdOffset_lt bufs
  cases page with
  | zero =>
    have room : index < 0x1000 - qtdOffset bufs := inside
    have start := page_toNat (qtdBuf bufs 0)
    rw [← qtdOffset_eq] at start
    have place : qtdOffset bufs + (pageStart bufs 0 + index) = qtdOffset bufs + index := by
      unfold pageStart
      omega
    unfold qtdCell
    rw [place]
    dsimp only
    rw [Nat.div_eq_of_lt (by omega), Nat.mod_eq_of_lt (by omega)]
    change (qtdBuf bufs 0 &&& ~~~0xfff#32) + _ = qtdBuf bufs 0 + _
    bv_omega
  | succ page =>
    have room : index < 0x1000 := inside
    have place : qtdOffset bufs + (pageStart bufs (page + 1) + index) = index + (page + 1) * 0x1000 := by
      unfold pageStart
      omega
    unfold qtdCell
    rw [place]
    dsimp only
    rw [Nat.add_mul_div_right _ _ (by decide), Nat.div_eq_of_lt room, Nat.zero_add,
      Nat.add_mul_mod_self_right, Nat.mod_eq_of_lt room]
    rfl

/-- A piece of a page in memory. -/
theorem backed_page {total page count : Nat} (fits : QtdFits mapped bufs total)
    (room : count ≤ qtdRoom bufs page) (within : pageStart bufs page + count ≤ total) :
    mapped.backed (qtdBase bufs page) count = true := by
  unfold Mapping.backed
  rw [Bool.and_eq_true, decide_eq_true_iff, List.all_eq_true]
  refine ⟨?_, ?_⟩
  · cases page with
    | zero =>
      have room : count ≤ 0x1000 - qtdOffset bufs := room
      have offset := qtdOffset_eq bufs
      have bound := (qtdBuf bufs 0).isLt
      change (qtdBuf bufs 0).toNat + count ≤ 2 ^ 32
      omega
    | succ page =>
      have room : count ≤ 0x1000 := room
      have start := page_toNat (qtdBuf bufs (page + 1))
      have bound := (qtdBuf bufs (page + 1)).isLt
      change (qtdBuf bufs (page + 1) &&& ~~~0xfff#32).toNat + count ≤ 2 ^ 32
      omega
  · intro index member
    have range := List.mem_range.mp member
    rw [← qtdCell_page (by omega)]
    exact fits.backed _ (by omega)

/-- A page that is needed is not page 0, which has no memory. -/
theorem qtdBuf_ne (unmapped : mapped 0#20 = false) {total page : Nat} (fits : QtdFits mapped bufs total)
    (before : pageStart bufs page < total) : qtdBuf bufs page ≠ 0 := by
  intro null
  have offset := qtdOffset_lt bufs
  have place : (qtdOffset bufs + pageStart bufs page) / 0x1000 = page := by
    unfold pageStart
    omega
  have small := Nat.mod_lt (qtdOffset bufs + pageStart bufs page) (by decide : 0x1000 > 0)
  have first : (qtdCell bufs (pageStart bufs page)).extractLsb' 12 20 = 0#20 := by
    unfold qtdCell
    dsimp only
    rw [place, null]
    generalize (qtdOffset bufs + pageStart bufs page) % 0x1000 = low at small
    apply BitVec.eq_of_toNat_eq
    have start : (0 : Word) &&& ~~~0xfff#32 = 0#32 := by decide
    rw [start, BitVec.extractLsb'_toNat, BitVec.zero_add, BitVec.toNat_ofNat]
    simp only [BitVec.toNat_ofNat, Nat.shiftRight_eq_div_pow]
    omega
  have backed := fits.backed _ before
  rw [first, unmapped] at backed
  cases backed

theorem qtdCells_append (bufs : List Word) (start first second : Nat) :
    qtdCells bufs start (first + second) =
      qtdCells bufs start first ++ qtdCells bufs (start + first) second := by
  rw [qtdCells, ← List.range'_append_1, List.map_append]
  rfl

theorem qtdCells_mono {less count : Nat} (le : less ≤ count) {cell : Word}
    (member : cell ∈ qtdCells bufs 0 less) : cell ∈ qtdCells bufs 0 count := by
  have split := qtdCells_append bufs 0 less (count - less)
  rw [Nat.add_sub_cancel' le] at split
  rw [split]
  exact List.mem_append_left _ member

/-- A piece of a page is written byte by byte. -/
theorem store_page (ram : FlatMemory) {page count : Nat} {bytes : List Byte}
    (length : bytes.length = count) (room : count ≤ qtdRoom bufs page) :
    ram.store (qtdBase bufs page) bytes =
      writeAll ram ((qtdCells bufs (pageStart bufs page) count).zip bytes) := by
  have small : qtdRoom bufs page ≤ 0x1000 := by
    unfold qtdRoom
    split
    · exact Nat.sub_le ..
    · exact Nat.le_refl _
  have cells : qtdCells bufs (pageStart bufs page) count =
      FlatMemory.cells (qtdBase bufs page) bytes.length := by
    rw [qtdCells, FlatMemory.cells, List.range'_eq_map_range, List.map_map, length]
    refine List.map_congr_left fun index member => ?_
    exact qtdCell_page (Nat.lt_of_lt_of_le (List.mem_range.mp member) room)
  rw [FlatMemory.store_eq_writeAll ram _ (by omega), cells]

/-- The loop over the pages left writes the bytes left. -/
theorem qtdWritePages_eq (unmapped : mapped 0#20 = false) {src : List Byte} {len : Nat}
    (enough : len ≤ src.length) (fits : QtdFits mapped bufs len) {count page done : Nat} (five : page + count = 5)
    (reached : done = min len (pageStart bufs page)) (ram : FlatMemory) :
    qtdWritePages mapped bufs src len (List.range' page count) done ram =
      (len, writeAll ram ((qtdCells bufs done (len - done)).zip ((src.drop done).take (len - done)))) := by
  have finished (all : done = len) :
      (done, ram) = (len, writeAll ram
        ((qtdCells bufs done (len - done)).zip ((src.drop done).take (len - done)))) := by
    rw [all, Nat.sub_self]
    rfl
  induction count generalizing page done ram with
  | zero =>
    have capacity := fits.capacity
    exact finished (by unfold pageStart at reached; omega)
  | succ count ih =>
    rw [List.range'_succ, qtdWritePages]
    by_cases full : len ≤ pageStart bufs page
    · rw [if_pos (.inl (by omega))]
      exact finished (by omega)
    · have start : done = pageStart bufs page := by omega
      have notDone : ¬(len ≤ done ∨ qtdBuf bufs page = 0) :=
        not_or.mpr ⟨by omega, qtdBuf_ne unmapped fits (by omega)⟩
      rw [if_neg notDone]
      dsimp only
      have next := pageStart_succ bufs page
      obtain ⟨n, count_eq⟩ : ∃ n, n = min (qtdRoom bufs page) (len - done) := ⟨_, rfl⟩
      have room : n ≤ qtdRoom bufs page := by omega
      have chunk : ((src.drop done).take n).length = n := by
        rw [List.length_take, List.length_drop]
        omega
      have cells : qtdCells bufs done (len - done) =
          qtdCells bufs done n ++ qtdCells bufs (done + n) (len - (done + n)) := by
        rw [← qtdCells_append]
        congr 1
        omega
      have bytes : (src.drop done).take (len - done) =
          (src.drop done).take n ++ (src.drop (done + n)).take (len - (done + n)) := by
        rw [← List.drop_drop, ← List.take_add]
        congr 1
        omega
      rw [← count_eq, if_pos (backed_page fits room (by omega)), ih (by omega) (by omega),
        store_page ram chunk room, ← start, cells, bytes, List.zip_append (by simp [qtdCells, chunk]),
        writeAll, writeAll, writeAll, List.foldl_append]
      intro all
      rw [all, Nat.sub_self]
      rfl

/-- Into a buffer in memory all bytes are written, each where it belongs. -/
theorem usbQtdWrite_eq (unmapped : mapped 0#20 = false) {src : List Byte} {len : Nat}
    (enough : len ≤ src.length) (fits : QtdFits mapped bufs len) (ram : FlatMemory) :
    usbQtdWrite mapped ram bufs src len = (len, scatter ram bufs (src.take len)) := by
  have written : qtdWritePages mapped bufs src len (List.range' 0 5) 0 ram =
      (len, writeAll ram ((qtdCells bufs 0 (len - 0)).zip ((src.drop 0).take (len - 0)))) :=
    qtdWritePages_eq unmapped enough fits rfl (by simp [pageStart]) ram
  rw [Nat.sub_zero, List.drop_zero] at written
  rw [scatter, List.length_take, Nat.min_eq_left enough]
  exact written

theorem scatter_nil (ram : FlatMemory) (bufs : List Word) : scatter ram bufs [] = ram := rfl

theorem QtdFits.mono {total less : Nat} (fits : QtdFits mapped bufs total) (le : less ≤ total) :
    QtdFits mapped bufs less :=
  ⟨by have := fits.capacity; omega, fun index below => fits.backed index (by omega)⟩

end ZeeboLle.Linux
