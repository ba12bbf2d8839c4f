import ZeeboLle.L4.MapItem

/-! The pages of a pool. The loop counts in 32-bit addresses, so it ends only if an address at or
above the end can be reached without passing the top of the address space. -/
namespace ZeeboLle.Boot

open Paging Unicorn L4

/-- The descriptor that is made for an address. -/
def pageAt (pageLog2 rwx va : Word) : Fpage :=
  ⟨(va &&& ~~~(0x3ff : Word)) ||| ((pageLog2 &&& 0x3f) <<< 4) ||| (rwx &&& 7)⟩

/-- The loop from an address on, given up after so many turns. -/
def fpagesFrom (vaEnd step pageLog2 rwx : Word) : Nat → Word → Option (List Fpage)
  | 0, _ => none
  | turns + 1, va =>
    if va < vaEnd then
      (fpagesFrom vaEnd step pageLog2 rwx turns (va + step)).map (pageAt pageLog2 rwx va :: ·)
    else some []

def pageStep (pageLog2 : Word) : Word := (1 : Word) <<< pageLog2.toNat

def enumerateFpages (turns : Nat) (vaStart vaEnd pageLog2 rwx : Word) : Option (List Fpage) :=
  fpagesFrom vaEnd (pageStep pageLog2) pageLog2 rwx turns vaStart

/-- Pages in order that cover a range, none of it twice, with the rights asked for. -/
structure Tiles (pages : List Fpage) (vaStart vaEnd rwx : Word) : Prop where
  ascending : pages.Pairwise fun page next => page.vaddr < next.vaddr
  disjoint : pages.Pairwise fun page next => page.vaddr + page.sizeBytes ≤ next.vaddr
  rights : ∀ page ∈ pages, page.rwx = (rwx &&& 7).toNat
  covers : ∀ address, (∃ page ∈ pages, page.vaddr ≤ address ∧ address < page.vaddr + page.sizeBytes) ↔
    vaStart.toNat ≤ address ∧ address < vaEnd.toNat

/-- The loop ends, and tiles a range whose ends are multiples of the page size. -/
def Enumerates (vaStart vaEnd pageLog2 rwx : Word) : Prop :=
  ∃ pages, (∃ enough, ∀ turns ≥ enough, enumerateFpages turns vaStart vaEnd pageLog2 rwx = some pages) ∧
    (vaStart.toNat % 2 ^ pageLog2.toNat = 0 → vaEnd.toNat % 2 ^ pageLog2.toNat = 0 →
      Tiles pages vaStart vaEnd rwx)

section Page

variable {pageLog2 va : Word} (rwx : Word)

theorem sizeField (pageLog2 : Word) : (pageLog2 &&& 0x3f) <<< 4 = pageLog2 <<< 4 &&& 0x3f0 := by
  rw [BitVec.shiftLeft_and_distrib]
  rfl

theorem masked (word low high : Word) (apart : low &&& high = 0#32) :
    word &&& low &&& high = 0#32 := by
  rw [BitVec.and_assoc, apart, BitVec.and_zero]

theorem pageAt_rwx (pageLog2 va : Word) : (pageAt pageLog2 rwx va).rwx = (rwx &&& 7).toNat := by
  rw [pageAt, Fpage.rwx, sizeField, BitVec.and_or_distrib_right, BitVec.and_or_distrib_right,
    masked _ _ _ (by decide), masked _ _ _ (by decide), BitVec.and_assoc, BitVec.and_self,
    BitVec.zero_or, BitVec.zero_or]

theorem pageAt_sizeLog2 (small : pageLog2.toNat < 64) :
    (pageAt pageLog2 rwx va).sizeLog2 = pageLog2.toNat := by
  have field : ∀ word : Word, (word >>> 4) &&& (0x3f : Word) = (word &&& 0x3f0) >>> 4 := by
    intro word
    rw [BitVec.ushiftRight_and_distrib]
    rfl
  have kept : (pageLog2 &&& 0x3f).toNat = pageLog2.toNat := by
    rw [BitVec.toNat_and]
    exact (Nat.and_two_pow_sub_one_eq_mod _ 6).trans (Nat.mod_eq_of_lt small)
  rw [pageAt, Fpage.sizeLog2, field, sizeField, BitVec.and_or_distrib_right, BitVec.and_or_distrib_right,
    masked _ _ _ (by decide), masked _ 7 _ (by decide), BitVec.and_assoc, BitVec.and_self,
    BitVec.zero_or, BitVec.or_zero, ← sizeField, BitVec.toNat_ushiftRight, BitVec.toNat_shiftLeft, kept,
    Nat.mod_eq_of_lt (by rw [Nat.shiftLeft_eq]; omega), Nat.shiftLeft_shiftRight]

theorem pageAt_vaddr (granular : va.toNat % 0x400 = 0) : (pageAt pageLog2 rwx va).vaddr = va.toNat := by
  have split : va &&& ~~~(0x3ff : Word) = va := by
    have low : va &&& 0x3ff = 0#32 := by
      apply BitVec.eq_of_toNat_eq
      rw [BitVec.toNat_and]
      exact (Nat.and_two_pow_sub_one_eq_mod _ 10).trans granular
    have whole : va &&& (0x3ff ||| ~~~(0x3ff : Word)) = va := by
      rw [show (0x3ff ||| ~~~(0x3ff : Word)) = BitVec.allOnes 32 from by decide, BitVec.and_allOnes]
    rw [BitVec.and_or_distrib_left, low, BitVec.zero_or] at whole
    exact whole
  rw [pageAt, Fpage.vaddr, sizeField, BitVec.and_or_distrib_right, BitVec.and_or_distrib_right,
    masked _ 0x3f0 _ (by decide), masked _ 7 _ (by decide), BitVec.and_assoc, BitVec.and_self,
    BitVec.or_zero, BitVec.or_zero, split]

end Page

section Loop

variable {pageLog2 vaEnd : Word} {rwx : Word}

theorem toNat_step (large : pageLog2.toNat ≤ 31) :
    (pageStep pageLog2).toNat = 2 ^ pageLog2.toNat := by
  rw [pageStep, BitVec.toNat_shiftLeft, Nat.shiftLeft_eq]
  have small : 2 ^ pageLog2.toNat ≤ 2 ^ 31 := Nat.pow_le_pow_right (by decide) large
  have one : (1 : Word).toNat = 1 := rfl
  rw [one, Nat.one_mul, Nat.mod_eq_of_lt (by omega)]

/-- The address space is a whole number of pages. -/
theorem exists_pages (large : pageLog2.toNat ≤ 31) : ∃ count, 2 ^ 32 = 2 ^ pageLog2.toNat * (count + 1) := by
  obtain ⟨count, whole⟩ : 2 ^ pageLog2.toNat ∣ 2 ^ 32 := Nat.pow_dvd_pow 2 (by omega)
  cases count with
  | zero => simp at whole
  | succ count => exact ⟨count, whole⟩

/-- Below the last address of its residue a step does not pass the top. -/
theorem step_low (large : pageLog2.toNat ≤ 31) (va : Word)
    (below : va.toNat < 2 ^ 32 - 2 ^ pageLog2.toNat + va.toNat % 2 ^ pageLog2.toNat) :
    (va + pageStep pageLog2).toNat = va.toNat + 2 ^ pageLog2.toNat ∧
      va.toNat + 2 ^ pageLog2.toNat ≤ 2 ^ 32 - 2 ^ pageLog2.toNat + va.toNat % 2 ^ pageLog2.toNat := by
  obtain ⟨count, whole⟩ := exists_pages large
  have positive : 0 < 2 ^ pageLog2.toNat := Nat.two_pow_pos _
  rw [BitVec.toNat_add, toNat_step large]
  generalize 2 ^ pageLog2.toNat = size at *
  have rest := Nat.mod_lt va.toNat positive
  have parts := Nat.div_add_mod va.toNat size
  rw [Nat.mul_add, Nat.mul_one] at whole
  have fewer : size * (va.toNat / size) < size * count := by omega
  have next : size * (va.toNat / size + 1) ≤ size * count :=
    Nat.mul_le_mul_left size (Nat.lt_of_mul_lt_mul_left fewer)
  rw [Nat.mul_add, Nat.mul_one] at next
  omega

theorem fpagesFrom_ends (rwx : Word) (large : pageLog2.toNat ≤ 31) {va : Word}
    (room : va < vaEnd → vaEnd.toNat ≤ 2 ^ 32 - 2 ^ pageLog2.toNat + va.toNat % 2 ^ pageLog2.toNat) :
    ∃ pages enough, ∀ turns ≥ enough,
      fpagesFrom vaEnd (pageStep pageLog2) pageLog2 rwx turns va = some pages := by
  induction left : vaEnd.toNat - va.toNat using Nat.strongRecOn generalizing va with
  | ind size ih =>
    by_cases inside : va < vaEnd
    · have below : va.toNat < vaEnd.toNat := BitVec.lt_def.1 inside
      have limit := room inside
      obtain ⟨next, low⟩ := step_low large va (by omega)
      have positive : 0 < 2 ^ pageLog2.toNat := Nat.two_pow_pos _
      obtain ⟨pages, enough, rest⟩ := @ih _ (by omega) (va + pageStep pageLog2)
        (fun _ => by rw [next, Nat.add_mod_right]; exact limit) rfl
      refine ⟨pageAt pageLog2 rwx va :: pages, enough + 1, fun turns more => ?_⟩
      obtain ⟨turns, rfl⟩ := Nat.exists_eq_add_of_le' (Nat.le_of_add_left_le more)
      rw [fpagesFrom, if_pos inside, rest turns (by omega)]
      rfl
    · refine ⟨[], 1, fun turns more => ?_⟩
      obtain ⟨turns, rfl⟩ := Nat.exists_eq_add_of_le' more
      rw [fpagesFrom, if_neg inside]

/-- No address of the residue reaches an end above the last of them. -/
theorem fpagesFrom_endless (rwx : Word) (large : pageLog2.toNat ≤ 31) {va : Word}
    (beyond : 2 ^ 32 - 2 ^ pageLog2.toNat + va.toNat % 2 ^ pageLog2.toNat < vaEnd.toNat) (turns : Nat) :
    fpagesFrom vaEnd (pageStep pageLog2) pageLog2 rwx turns va = none := by
  induction turns generalizing va with
  | zero => rfl
  | succ turns ih =>
    obtain ⟨count, whole⟩ := exists_pages large
    have bound := va.isLt
    have positive : 0 < 2 ^ pageLog2.toNat := Nat.two_pow_pos _
    have below : va.toNat ≤ 2 ^ 32 - 2 ^ pageLog2.toNat + va.toNat % 2 ^ pageLog2.toNat := by
      have rest := Nat.mod_lt va.toNat positive
      have parts := Nat.div_add_mod va.toNat (2 ^ pageLog2.toNat)
      rw [Nat.mul_add, Nat.mul_one] at whole
      generalize 2 ^ pageLog2.toNat = size at *
      have fewer : size * (va.toNat / size) < size * (count + 1) := by
        rw [Nat.mul_add, Nat.mul_one]
        omega
      have most : size * (va.toNat / size) ≤ size * count :=
        Nat.mul_le_mul_left size (Nat.le_of_lt_succ (Nat.lt_of_mul_lt_mul_left fewer))
      omega
    have residue : (va + pageStep pageLog2).toNat % 2 ^ pageLog2.toNat =
        va.toNat % 2 ^ pageLog2.toNat := by
      rw [BitVec.toNat_add, toNat_step large, Nat.mod_mod_of_dvd _ ⟨_, whole⟩, Nat.add_mod_right]
    rw [fpagesFrom, if_pos (BitVec.lt_def.2 (by omega)), ih (by rw [residue]; exact beyond)]
    rfl

theorem tiles_nil (va : Word) : Tiles [] va va rwx where
  ascending := .nil
  disjoint := .nil
  rights := by simp
  covers := by
    intro address
    simp

/-- A page in front of the pages of the rest. -/
theorem Tiles.cons {page : Fpage} {pages : List Fpage} {va next : Word} (rest : Tiles pages next vaEnd rwx)
    (start : page.vaddr = va.toNat) (ends : page.vaddr + page.sizeBytes = next.toNat)
    (within : next ≤ vaEnd) (rights : page.rwx = (rwx &&& 7).toNat) : Tiles (page :: pages) va vaEnd rwx := by
  have positive := page.sizeBytes_pos
  have later : ∀ other ∈ pages, next.toNat ≤ other.vaddr := fun other member =>
    ((rest.covers other.vaddr).1 ⟨other, member, Nat.le_refl _, Nat.lt_add_of_pos_right other.sizeBytes_pos⟩).1
  refine ⟨List.pairwise_cons.2 ⟨fun other member => ?_, rest.ascending⟩,
    List.pairwise_cons.2 ⟨fun other member => ?_, rest.disjoint⟩, ?_, fun address => ?_⟩
  · have after := later other member
    omega
  · have after := later other member
    omega
  · simpa using ⟨rights, rest.rights⟩
  · have tail := rest.covers address
    have bound := BitVec.le_def.1 within
    simp only [List.mem_cons, exists_eq_or_imp, tail]
    omega

/-- Where both ends are multiples of the size, the pages of a loop that ends tile the range. -/
theorem fpagesFrom_tiles (small : 10 ≤ pageLog2.toNat) (large : pageLog2.toNat ≤ 31)
    (endAligned : vaEnd.toNat % 2 ^ pageLog2.toNat = 0) {turns : Nat} {va : Word} {pages : List Fpage}
    (aligned : va.toNat % 2 ^ pageLog2.toNat = 0) (ordered : va ≤ vaEnd)
    (done : fpagesFrom vaEnd (pageStep pageLog2) pageLog2 rwx turns va = some pages) :
    Tiles pages va vaEnd rwx := by
  induction turns generalizing va pages with
  | zero => cases done
  | succ turns ih =>
    rw [fpagesFrom] at done
    by_cases inside : va < vaEnd
    · rw [if_pos inside] at done
      obtain ⟨later, rest, rfl⟩ := Option.map_eq_some_iff.1 done
      obtain ⟨count, whole⟩ := exists_pages large
      have granular : 2 ^ 10 ∣ 2 ^ pageLog2.toNat := Nat.pow_dvd_pow 2 small
      have below := BitVec.lt_def.1 inside
      have bound := vaEnd.isLt
      have gap : va.toNat + 2 ^ pageLog2.toNat ≤ vaEnd.toNat := by
        obtain ⟨first, start⟩ := Nat.dvd_of_mod_eq_zero aligned
        obtain ⟨last, finish⟩ := Nat.dvd_of_mod_eq_zero endAligned
        rw [start, finish] at below ⊢
        rw [← Nat.mul_succ]
        exact Nat.mul_le_mul_left _ (Nat.lt_of_mul_lt_mul_left below)
      have next : (va + pageStep pageLog2).toNat = va.toNat + 2 ^ pageLog2.toNat := by
        rw [BitVec.toNat_add, toNat_step large, Nat.mod_eq_of_lt (by omega)]
      have address : (pageAt pageLog2 rwx va).vaddr = va.toNat :=
        pageAt_vaddr rwx (Nat.mod_eq_zero_of_dvd (Nat.dvd_trans granular (Nat.dvd_of_mod_eq_zero aligned)))
      have size : (pageAt pageLog2 rwx va).sizeBytes = 2 ^ pageLog2.toNat := by
        rw [Fpage.sizeBytes, pageAt_sizeLog2 rwx (by omega), if_neg (by omega), Nat.one_shiftLeft]
      have within : va + pageStep pageLog2 ≤ vaEnd := BitVec.le_def.2 (by rw [next]; exact gap)
      have tail := ih (by rw [next, Nat.add_mod_right, aligned]) within rest
      exact tail.cons address (by rw [address, size, next]) within
        (pageAt_rwx rwx pageLog2 va)
    · rw [if_neg inside] at done
      cases done
      rw [BitVec.le_antisymm ordered (BitVec.not_lt.1 inside)]
      exact tiles_nil vaEnd

end Loop

/-- The loop ends, with pages that tile an aligned range, exactly if it has nothing to do or an
address it comes to is at or above the end. -/
theorem enumerates_iff {vaStart vaEnd pageLog2 : Word} (rwx : Word) (ordered : vaStart ≤ vaEnd)
    (small : 10 ≤ pageLog2.toNat) (large : pageLog2.toNat ≤ 31) :
    Enumerates vaStart vaEnd pageLog2 rwx ↔
      vaStart = vaEnd ∨
        vaEnd.toNat ≤ 2 ^ 32 - 2 ^ pageLog2.toNat + vaStart.toNat % 2 ^ pageLog2.toNat := by
  constructor
  · rintro ⟨pages, ⟨enough, done⟩, _⟩
    by_contra refused
    obtain ⟨different, beyond⟩ := not_or.1 refused
    have endless := fpagesFrom_endless rwx large (Nat.not_le.1 beyond) enough
    exact nomatch endless.symm.trans (done enough (Nat.le_refl enough))
  · intro reached
    have room : vaStart < vaEnd →
        vaEnd.toNat ≤ 2 ^ 32 - 2 ^ pageLog2.toNat + vaStart.toNat % 2 ^ pageLog2.toNat := by
      intro inside
      rcases reached with rfl | low
      · exact absurd inside (BitVec.lt_irrefl _)
      · exact low
    obtain ⟨pages, enough, done⟩ := fpagesFrom_ends rwx large room
    exact ⟨pages, ⟨enough, done⟩, fun aligned endAligned =>
      fpagesFrom_tiles small large endAligned aligned ordered (done enough (Nat.le_refl enough))⟩

/-- The heap of 96 MiB in pages of 1 MiB. -/
theorem enumerates_heap : Enumerates 0xb0d00000 0xb6d00000 20 6 :=
  (enumerates_iff 6 (by decide) (by decide) (by decide)).2 (.inr (by decide))

/-- Pages of 4 KiB up to the last byte of the address space. -/
theorem enumerates_no_top : ¬Enumerates 0 0xffffffff 12 7 := by
  rintro ⟨pages, ⟨enough, done⟩, _⟩
  have endless : fpagesFrom 0xffffffff (pageStep 12) 12 7 enough 0 = none :=
    fpagesFrom_endless 7 (by decide) (by decide) enough
  exact nomatch endless.symm.trans (done enough (Nat.le_refl enough))

end ZeeboLle.Boot
