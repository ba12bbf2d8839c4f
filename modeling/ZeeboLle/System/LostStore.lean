import ZeeboLle.System.Bridge

/-! Stores of the recompiler. The bridge writes both the lookup table and the engine; only
its word store brings in a missing page, and only the one the store starts in. A store that
neither takes is dropped without a sign. -/
namespace ZeeboLle.System

open Paging Unicorn L4 Device

namespace Fabric

variable {fabric after : Fabric} {size : Nat} {addr : Word}

/-- Whatever is stored, a load of the same width returns it and every other byte reads as
before. -/
def StoreKept (fabric : Fabric) (addr : Word) (width : Width) : Prop :=
  ∀ value, value < 0x100 ^ width.bytes →
    ((fabric.jitStore addr value width).jitLoad addr width).1 = value ∧
      ∀ other, (∀ index, index < width.bytes → other ≠ offset addr index) →
        (memoryRead 1 (fabric.jitStore addr value width) other).1 = (memoryRead 1 fabric other).1

/-- A word store is taken when the table has it all, or when it stays within the address
space and the engine has every page of it but perhaps the first. -/
def AcceptsWord (fabric : Fabric) (addr : Word) : Prop :=
  fabric.vtlb.covers addr.toNat 4 = true ∨
    ∀ index, index < 4 → addr.toNat + index < 0x100000000 ∧
      ((fabric.core0.pages ((addr.toNat + index) / 0x1000)).isSome = true ∨
        (addr.toNat + index) / 0x1000 = addr.toNat / 0x1000)

def Accepts (fabric : Fabric) (addr : Word) : Width → Prop
  | .byte => fabric.covered 1 addr = true
  | .half => fabric.covered 2 addr = true
  | .word => fabric.AcceptsWord addr
  | .double => fabric.AcceptsWord addr ∧ fabric.AcceptsWord (addr + 4)

/-- Where neither side has the whole access, not every byte of a load can be one. -/
theorem memoryRead_uncovered (plain : isCore0Peripheral addr = false)
    (hole : fabric.covered size addr = false) :
    (memoryRead size fabric addr).1 ≠ leValue (List.replicate size 1) := by
  obtain ⟨table, engine⟩ := Bool.or_eq_false_iff.mp hole
  rw [memoryRead_plain plain, if_neg (by simp [engine])]
  intro ones
  rw [leValue_inj (by rw [length_listed, List.length_replicate]), listed, VtlbLut.read_eq] at ones
  have short : (fabric.vtlb.cells addr.toNat size).length < size :=
    lt_of_le_of_ne (length_reach_le _ _ _) (by simpa [VtlbLut.covers] using table)
  have zero : (0 : Byte) ∈ List.replicate size (1 : Byte) := by
    rw [← ones]
    refine List.mem_append_right _ (List.mem_replicate.mpr ⟨?_, rfl⟩)
    omega
  have absurd := (List.mem_replicate.mp zero).2
  revert absurd
  decide

/-- If every stored value can be seen where it was stored and nowhere else, the access is
unshared. -/
theorem unshared_of_seen {store : Nat → Fabric} {count : Nat}
    (enlarged : ∀ value, Enlarged fabric (store value))
    (seen : ∀ value, value < 0x100 ^ count →
      (List.range count).map (fun index => (store value).view (offset addr index)) =
        leBytes count value)
    (elsewhere : ∀ value, value < 0x100 ^ count → ∀ other, isRegister other = false →
      (∀ index, index < count → other ≠ offset addr index) →
        (store value).view other = fabric.view other) : fabric.Unshared addr count := by
  intro index below ptr here other there
  by_contra different
  -- both addresses read one host byte, before and after
  have shown : ∀ bytes : List Byte, bytes.length = count → ∀ position, position < count →
      bytes[position]? = some ((store (leValue bytes)).view (offset addr position)) := by
    intro bytes length position inside
    have small := leValue_lt bytes
    have all := seen (leValue bytes) (by rw [← length]; exact small)
    have back := leBytes_leValue bytes
    rw [length] at back
    have entry := congrArg (fun bytes => bytes[position]?) (all.trans back)
    simp only [List.getElem?_map, List.getElem?_range inside, Option.map_some] at entry
    exact entry.symm
  have same : ∀ value, (store value).view other = (store value).view (offset addr index) := by
    intro value
    rw [view, view, ((enlarged value).source_host _ ptr).mpr here,
      ((enlarged value).source_host _ ptr).mpr there]
  by_cases inside : ∃ position, position < count ∧ other = offset addr position
  · obtain ⟨position, bound, rfl⟩ := inside
    have apart : position ≠ index := fun equal => different (by rw [equal])
    let bytes : List Byte := (List.range count).map fun place => if place = index then 0 else 1
    have length : bytes.length = count := by simp [bytes]
    have zero := shown bytes length index below
    have one := shown bytes length position bound
    rw [same, ← zero] at one
    simp [bytes, List.getElem?_range below, List.getElem?_range bound, apart] at one
  · have readable : isRegister other = false := by
      by_contra register
      simp [source, register] at there
    let bytes : List Byte := List.replicate count (fabric.view other + 1)
    have length : bytes.length = count := by simp [bytes]
    have next := shown bytes length index below
    have small := leValue_lt bytes
    rw [length] at small
    rw [← same, elsewhere _ small other readable fun position bound equal =>
      inside ⟨position, bound, equal⟩] at next
    simp [bytes, below] at next

/-- A store of the bridge's kind keeps everything. -/
def BridgeKept (fabric : Fabric) (size : Nat) (addr : Word) : Prop :=
  ∀ value, value < 0x100 ^ size →
    (memoryRead size (bridgeWrite size fabric addr value).2 addr).1 = value ∧
      ∀ other, (∀ index, index < size → other ≠ offset addr index) →
        (memoryRead 1 (bridgeWrite size fabric addr value).2 other).1 = (memoryRead 1 fabric other).1

theorem bridgeKept_iff (agrees : fabric.vtlb.Agrees fabric.core0) (positive : 0 < size)
    (narrow : size ≤ 8)
    (plain : ∀ index, index < size → isCore0Peripheral (offset addr index) = false) :
    fabric.BridgeKept size addr ↔ fabric.covered size addr = true ∧ fabric.Unshared addr size := by
  have here := plain 0 positive
  rw [offset_zero] at here
  constructor
  · intro kept
    have covered : fabric.covered size addr = true := by
      by_contra hole
      have small := leValue_lt (List.replicate size 1)
      rw [List.length_replicate] at small
      refine memoryRead_uncovered here ?_ (kept _ small).1
      rw [covered_bridgeWrite agrees]
      simpa using hole
    refine ⟨covered, unshared_of_seen (fun value => bridgeWrite_enlarged agrees size addr value) ?_ ?_⟩
    · intro value small
      have later := (bridgeWrite_enlarged agrees size addr value).agrees agrees
      exact views_of_load later positive plain (by rw [covered_bridgeWrite agrees, covered])
        (kept value small).1
    · intro value small other readable outside
      exact view_of_memoryRead readable ((kept value small).2 other outside)
  · rintro ⟨covered, unshared⟩ value small
    have enlarged := bridgeWrite_enlarged agrees size addr value
    constructor
    · rw [memoryRead_covered_views (enlarged.agrees agrees) positive plain (enlarged.covered covered),
        view_written agrees narrow plain covered unshared, leValue_leBytes, Nat.mod_eq_of_lt small]
    · intro other outside
      exact memoryRead_congr enlarged.devices (view_elsewhere agrees plain unshared value outside)

theorem covered_mapped_iff (fabric : Fabric) (addr : Word) :
    (fabric.mapped addr).covered 4 addr = true ↔ fabric.AcceptsWord addr := by
  rw [covered, Bool.or_eq_true, Memory.backed_iff, AcceptsWord]
  refine or_congr Iff.rfl (forall₂_congr fun index _ => ?_)
  rw [Memory.isSome_cell, mapped_pages]

/-- A word store that is taken can be seen. -/
theorem write32_seen (agrees : fabric.vtlb.Agrees fabric.core0)
    (plain : ∀ index, index < 4 → isCore0Peripheral (offset addr index) = false)
    (accepts : fabric.AcceptsWord addr) (unshared : fabric.Unshared addr 4) (value : Nat) :
    (List.range 4).map (fun index => (fabric.write32 addr value).view (offset addr index)) =
      leBytes 4 value := by
  have enlarged := mapped_enlarged fabric addr
  rw [write32_eq agrees]
  exact view_written (enlarged.agrees agrees) (by omega) plain
    ((covered_mapped_iff fabric addr).mpr accepts) (enlarged.unshared.mpr unshared) value

/-- An unshared word store is seen nowhere else. -/
theorem write32_elsewhere (agrees : fabric.vtlb.Agrees fabric.core0)
    (plain : ∀ index, index < 4 → isCore0Peripheral (offset addr index) = false)
    (unshared : fabric.Unshared addr 4) (value : Nat) {other : Word}
    (outside : ∀ index, index < 4 → other ≠ offset addr index) :
    (fabric.write32 addr value).view other = fabric.view other := by
  have enlarged := mapped_enlarged fabric addr
  rw [write32_eq agrees, ← view_mapped fabric addr other]
  exact view_elsewhere (enlarged.agrees agrees) plain (enlarged.unshared.mpr unshared) value outside

/-- A word store shows nothing at another address that has no cell. -/
theorem write32_missing (agrees : fabric.vtlb.Agrees fabric.core0)
    (plain : ∀ index, index < 4 → isCore0Peripheral (offset addr index) = false) (value : Nat)
    {other : Word} (outside : ∀ index, index < 4 → other ≠ offset addr index)
    (missing : fabric.source other = none) : (fabric.write32 addr value).view other = 0 := by
  have enlarged := mapped_enlarged fabric addr
  have before : fabric.view other = 0 := by rw [view, missing]
  rw [write32_eq agrees, ← before, ← view_mapped fabric addr other]
  refine view_apart (enlarged.agrees agrees) plain value fun index below cell here there => ?_
  cases cell with
  | host ptr =>
    rw [(enlarged.source_host other ptr).mp there] at missing
    cases missing
  | ram byte =>
    exact outside index below
      (BitVec.eq_of_toNat_eq ((source_ram there).symm.trans (source_ram here)))

theorem covered_write32_iff (agrees : fabric.vtlb.Agrees fabric.core0) (value : Nat) :
    (fabric.write32 addr value).covered 4 addr = true ↔ fabric.AcceptsWord addr := by
  rw [write32_eq agrees, covered_bridgeWrite ((mapped_enlarged fabric addr).agrees agrees),
    covered_mapped_iff]

theorem wordKept_iff (agrees : fabric.vtlb.Agrees fabric.core0)
    (plain : ∀ index, index < 4 → isCore0Peripheral (offset addr index) = false) :
    fabric.StoreKept addr .word ↔ fabric.AcceptsWord addr ∧ fabric.Unshared addr 4 := by
  have enlarged := mapped_enlarged fabric addr
  have here := plain 0 (by omega)
  rw [offset_zero] at here
  have stored : ∀ value, fabric.jitStore addr value .word =
      (bridgeWrite 4 (fabric.mapped addr) addr value).2 := fun value => by
    rw [jitStore, memoryWrite32, here, if_neg Bool.false_ne_true, write32_eq agrees]
  have before : ∀ other, (memoryRead 1 (fabric.mapped addr) other).1 = (memoryRead 1 fabric other).1 :=
    fun other => memoryRead_congr rfl (view_mapped fabric addr other)
  have same : fabric.StoreKept addr .word ↔ (fabric.mapped addr).BridgeKept 4 addr := by
    unfold StoreKept BridgeKept
    simp only [stored, jitLoad, Width.bytes, before]
  rw [same, bridgeKept_iff (enlarged.agrees agrees) (by omega) (by omega) plain, covered_mapped_iff,
    enlarged.unshared]

theorem offset_four (addr : Word) (index : Nat) : offset (addr + 4) index = offset addr (index + 4) := by
  apply BitVec.eq_of_toNat_eq
  rw [toNat_offset, toNat_offset, guestByte, guestByte, BitVec.toNat_add]
  change ((addr.toNat + 4) % 2 ^ 32 + index) % 0x100000000 = _
  omega

theorem upper_plain (plain : ∀ index, index < 8 → isCore0Peripheral (offset addr index) = false) :
    ∀ index, index < 4 → isCore0Peripheral (offset (addr + 4) index) = false := fun index below => by
  rw [offset_four]
  exact plain (index + 4) (by omega)

theorem Unshared.lower (unshared : fabric.Unshared addr 8) : fabric.Unshared addr 4 :=
  fun index below => unshared index (by omega)

theorem Unshared.upper (unshared : fabric.Unshared addr 8) : fabric.Unshared (addr + 4) 4 :=
  fun index below => by
    rw [offset_four]
    exact unshared (index + 4) (by omega)

theorem Enlarged.acceptsWord (enlarged : Enlarged fabric after) (accepts : fabric.AcceptsWord addr) :
    after.AcceptsWord addr := by
  unfold AcceptsWord at accepts ⊢
  rw [enlarged.vtlb]
  refine accepts.imp_right fun every index below => ?_
  obtain ⟨small, either⟩ := every index below
  refine ⟨small, either.imp_left fun present => ?_⟩
  obtain ⟨page, found⟩ := Option.isSome_iff_exists.mp present
  rw [enlarged.pages.mapped found]
  rfl

/-- The store of the lower word brings in no page the upper one would miss. -/
theorem acceptsWord_upper (agrees : fabric.vtlb.Agrees fabric.core0) (value : Nat)
    (accepts : (fabric.write32 addr value).AcceptsWord (addr + 4)) : fabric.AcceptsWord (addr + 4) := by
  have upper : (addr + 4).toNat = (addr.toNat + 4) % 0x100000000 := BitVec.toNat_add addr 4
  have bound := addr.isLt
  unfold AcceptsWord at accepts ⊢
  rw [(write32_enlarged agrees addr value).vtlb] at accepts
  refine accepts.imp_right fun every index below => ?_
  obtain ⟨small, either⟩ := every index below
  refine ⟨small, ?_⟩
  rcases either with present | same
  · rcases (write32_pages agrees addr value _).mp present with before | first
    · exact .inl before
    · right
      omega
  · exact .inr same

/-- What a doubleword load returns are two word loads. -/
theorem memoryRead64_eq (plain : ∀ index, index < 8 → isCore0Peripheral (offset addr index) = false) :
    (fabric.memoryRead64 addr).1 =
      (memoryRead 4 fabric addr).1 + 0x100000000 * (memoryRead 4 fabric (addr + 4)).1 := by
  have here := plain 0 (by omega)
  rw [offset_zero] at here
  have still : (memoryRead 4 fabric addr).2 = fabric := by rw [memoryRead_plain here]
  change (memoryRead 4 fabric addr).1 +
    0x100000000 * (memoryRead 4 (memoryRead 4 fabric addr).2 (addr + 4)).1 = _
  rw [still]

theorem memoryRead_lt (plain : isCore0Peripheral addr = false) :
    (memoryRead 4 fabric addr).1 < 0x100000000 := by
  have widths := leValue_lt (fabric.listed 4 addr)
  rw [length_listed] at widths
  rw [memoryRead_plain plain]
  split
  · rename_i engine
    have full : ((fabric.core0.cells addr.toNat 4).map fabric.core0.contents).length = 4 := by
      simpa [Memory.backed] using engine.2
    have bound := leValue_lt ((fabric.core0.cells addr.toNat 4).map fabric.core0.contents)
    rwa [full] at bound
  · exact widths

/-- The two halves of a doubleword store. -/
theorem memoryWrite64_plain
    (plain : ∀ index, index < 8 → isCore0Peripheral (offset addr index) = false) (value : Nat) :
    fabric.memoryWrite64 addr value =
      (fabric.write32 addr (value % 0x100000000)).write32 (addr + 4) (value / 0x100000000) := by
  have lower := plain 0 (by omega)
  have upper := upper_plain plain 0 (by omega)
  rw [offset_zero] at lower upper
  rw [memoryWrite64, memoryWrite32, memoryWrite32, lower, upper, if_neg Bool.false_ne_true,
    if_neg Bool.false_ne_true]

theorem offset_outside_upper {index : Nat} (below : index < 4) :
    ∀ position, position < 4 → offset addr index ≠ offset (addr + 4) position := by
  intro position bound same
  rw [offset_four] at same
  have equal := offset_inj (by omega) (by omega) same
  omega

/-- The bytes of both halves, in the order of their addresses. -/
theorem range_eight (bytes : Nat → Byte) :
    (List.range 8).map bytes = (List.range 4).map bytes ++ (List.range 4).map fun index => bytes (index + 4) :=
  rfl

theorem leBytes_eight (value : Nat) :
    leBytes 8 value = leBytes 4 (value % 0x100000000) ++ leBytes 4 (value / 0x100000000) := by
  have low := leBytes_mod 4 value
  have whole := leBytes_add 4 4 value
  rw [← low] at whole
  exact whole

section Double

variable (agrees : fabric.vtlb.Agrees fabric.core0)
  (plain : ∀ index, index < 8 → isCore0Peripheral (offset addr index) = false)
include agrees plain

theorem memoryWrite64_enlarged (value : Nat) : Enlarged fabric (fabric.memoryWrite64 addr value) := by
  have first := write32_enlarged agrees addr (value % 0x100000000)
  rw [memoryWrite64_plain plain]
  exact first.trans (write32_enlarged (first.agrees agrees) (addr + 4) (value / 0x100000000))

theorem doubleKept_of_accepts (accepts : fabric.Accepts addr .double)
    (unshared : fabric.Unshared addr 8) : fabric.StoreKept addr .double := by
  intro value small
  have lower : ∀ index, index < 4 → isCore0Peripheral (offset addr index) = false :=
    fun index below => plain index (by omega)
  have first := write32_enlarged agrees addr (value % 0x100000000)
  have later := first.agrees agrees
  have upper := first.unshared.mpr unshared.upper
  have second := write32_enlarged later (addr + 4) (value / 0x100000000)
  have last := second.agrees later
  -- the upper word is stored elsewhere, so the lower one is still seen
  have low : (List.range 4).map (fun index => ((fabric.write32 addr (value % 0x100000000)).write32
      (addr + 4) (value / 0x100000000)).view (offset addr index)) = leBytes 4 (value % 0x100000000) := by
    rw [← write32_seen agrees lower accepts.1 unshared.lower (value % 0x100000000)]
    refine List.map_congr_left fun index member => ?_
    exact write32_elsewhere later (upper_plain plain) upper (value / 0x100000000)
      (offset_outside_upper (List.mem_range.mp member))
  have high := write32_seen later (upper_plain plain) (first.acceptsWord accepts.2) upper
    (value / 0x100000000)
  have quotient : value / 0x100000000 < 0x100 ^ 4 := by
    have bound : value < 0x100 ^ 8 := small
    omega
  have remainder : value % 0x100000000 < 0x100 ^ 4 := Nat.mod_lt _ (by omega)
  change ((fabric.memoryWrite64 addr value).memoryRead64 addr).1 = value ∧
    ∀ other, (∀ index, index < 8 → other ≠ offset addr index) →
      (memoryRead 1 (fabric.memoryWrite64 addr value) other).1 = (memoryRead 1 fabric other).1
  rw [memoryWrite64_plain plain, memoryRead64_eq plain]
  constructor
  · rw [memoryRead_covered_views last (by omega) lower
        (second.covered ((covered_write32_iff agrees _).mpr accepts.1)), low,
      memoryRead_covered_views last (by omega) (upper_plain plain)
        ((covered_write32_iff later _).mpr (first.acceptsWord accepts.2)), high, leValue_leBytes,
      leValue_leBytes, Nat.mod_eq_of_lt quotient, Nat.mod_eq_of_lt remainder]
    exact Nat.mod_add_div value 0x100000000
  · intro other outside
    refine memoryRead_congr (second.devices.trans first.devices) ?_
    rw [write32_elsewhere later (upper_plain plain) upper (value / 0x100000000) fun index below => by
        rw [offset_four]
        exact outside (index + 4) (by omega),
      write32_elsewhere agrees lower unshared.lower (value % 0x100000000) fun index below =>
        outside index (by omega)]

omit agrees in
/-- What a kept doubleword store says about its halves. -/
theorem halves_of_kept (kept : fabric.StoreKept addr .double) {value : Nat}
    (small : value < 0x100 ^ 8) :
    (memoryRead 4 (fabric.memoryWrite64 addr value) addr).1 = value % 0x100000000 ∧
      (memoryRead 4 (fabric.memoryWrite64 addr value) (addr + 4)).1 = value / 0x100000000 := by
  have here := plain 0 (by omega)
  rw [offset_zero] at here
  have whole : ((fabric.memoryWrite64 addr value).memoryRead64 addr).1 = value := (kept value small).1
  have bound := @memoryRead_lt (fabric.memoryWrite64 addr value) addr here
  rw [memoryRead64_eq plain] at whole
  omega

/-- The lower word of a kept store was taken: the store of the upper word may map the page
the lower one lacked, but what belonged there is gone by then. -/
theorem lower_accepts (kept : fabric.StoreKept addr .double) : fabric.AcceptsWord addr := by
  have lower : ∀ index, index < 4 → isCore0Peripheral (offset addr index) = false :=
    fun index below => plain index (by omega)
  have here := lower 0 (by omega)
  rw [offset_zero] at here
  have ones := (halves_of_kept plain kept (leValue_lt (List.replicate 8 1))).1
  have half : leValue (List.replicate 8 1) % 0x100000000 = leValue (List.replicate 4 1) := by decide
  rw [half] at ones
  by_contra refused
  cases covered : (fabric.memoryWrite64 addr (leValue (List.replicate 8 1))).covered 4 addr with
  | false => exact memoryRead_uncovered here covered ones
  | true =>
    have final := (memoryWrite64_enlarged agrees plain (leValue (List.replicate 8 1))).agrees agrees
    have seen := views_of_load final (by omega) lower covered ones
    have first := write32_enlarged agrees addr (leValue (List.replicate 8 1) % 0x100000000)
    obtain ⟨table, hole⟩ := not_or.mp refused
    obtain ⟨index, lacking⟩ := not_forall.mp hole
    obtain ⟨below, lacking⟩ := Classical.not_imp.mp lacking
    have engine : (fabric.memoryWrite64 addr (leValue (List.replicate 8 1))).core0.backed
        addr.toNat 4 = true := by
      rw [Fabric.covered, Bool.or_eq_true,
        (memoryWrite64_enlarged agrees plain (leValue (List.replicate 8 1))).vtlb] at covered
      exact covered.resolve_left table
    have inside : addr.toNat + index < 0x100000000 :=
      (Memory.isSome_cell.mp (Memory.backed_iff.mp engine index below)).1
    have absent : ¬ ((fabric.core0.pages ((addr.toNat + index) / 0x1000)).isSome = true ∨
        (addr.toNat + index) / 0x1000 = addr.toNat / 0x1000) := fun either => lacking ⟨inside, either⟩
    have missing : (fabric.write32 addr (leValue (List.replicate 8 1) % 0x100000000)).source
        (offset addr index) = none := by
      rw [source_plain (first.agrees agrees) (lower index below), toNat_offset,
        guestByte, Nat.mod_eq_of_lt inside]
      by_contra present
      have present := Option.ne_none_iff_isSome.mp present
      exact absent ((write32_pages agrees addr _ _).mp (Memory.isSome_cell.mp present).2)
    have zero := write32_missing (first.agrees agrees) (upper_plain plain)
      (leValue (List.replicate 8 1) / 0x100000000) (offset_outside_upper below) missing
    rw [← memoryWrite64_plain plain] at zero
    have entry := congrArg (fun bytes => bytes[index]?) seen
    simp only [List.getElem?_map, List.getElem?_range below, Option.map_some, zero] at entry
    have back : leBytes 4 (leValue (List.replicate 4 1)) = List.replicate 4 1 :=
      leBytes_leValue (List.replicate 4 1)
    rw [back, List.getElem?_replicate, if_pos below] at entry
    exact absurd (Option.some.inj entry) (by decide)

theorem upper_accepts (kept : fabric.StoreKept addr .double) : fabric.AcceptsWord (addr + 4) := by
  have here := upper_plain plain 0 (by omega)
  rw [offset_zero] at here
  have ones := (halves_of_kept plain kept (leValue_lt (List.replicate 8 1))).2
  have half : leValue (List.replicate 8 1) / 0x100000000 = leValue (List.replicate 4 1) := by decide
  rw [half] at ones
  have later := (write32_enlarged agrees addr (leValue (List.replicate 8 1) % 0x100000000)).agrees agrees
  by_contra refused
  refine memoryRead_uncovered here ?_ ones
  rw [memoryWrite64_plain plain]
  by_contra covered
  rw [Bool.not_eq_false, covered_write32_iff later] at covered
  exact refused (acceptsWord_upper agrees _ covered)

theorem doubleKept_iff :
    fabric.StoreKept addr .double ↔ fabric.Accepts addr .double ∧ fabric.Unshared addr 8 := by
  refine ⟨fun kept => ?_, fun both => doubleKept_of_accepts agrees plain both.1 both.2⟩
  have lower : ∀ index, index < 4 → isCore0Peripheral (offset addr index) = false :=
    fun index below => plain index (by omega)
  have first := lower_accepts agrees plain kept
  have second := upper_accepts agrees plain kept
  refine ⟨⟨first, second⟩, unshared_of_seen (memoryWrite64_enlarged agrees plain) ?_ ?_⟩
  · intro value small
    have final := (memoryWrite64_enlarged agrees plain value).agrees agrees
    obtain ⟨low, high⟩ := halves_of_kept plain kept small
    have early := write32_enlarged agrees addr (value % 0x100000000)
    have late := write32_enlarged (early.agrees agrees) (addr + 4) (value / 0x100000000)
    have coveredLow : (fabric.memoryWrite64 addr value).covered 4 addr = true := by
      rw [memoryWrite64_plain plain]
      exact late.covered ((covered_write32_iff agrees _).mpr first)
    have coveredHigh : (fabric.memoryWrite64 addr value).covered 4 (addr + 4) = true := by
      rw [memoryWrite64_plain plain]
      exact (covered_write32_iff (early.agrees agrees) _).mpr (early.acceptsWord second)
    have upper := views_of_load final (by omega) (upper_plain plain) coveredHigh high
    simp only [offset_four] at upper
    rw [range_eight, leBytes_eight, views_of_load final (by omega) lower coveredLow low, upper]
  · intro value small other readable outside
    exact view_of_memoryRead readable ((kept value small).2 other outside)

end Double

/-- A store is kept exactly when it is taken and its bytes are not shared. -/
theorem storeKept_iff (fabric : Fabric) (addr : Word) (width : Width)
    (agrees : fabric.vtlb.Agrees fabric.core0)
    (plain : ∀ index, index < width.bytes → isCore0Peripheral (offset addr index) = false) :
    fabric.StoreKept addr width ↔ fabric.Accepts addr width ∧ fabric.Unshared addr width.bytes := by
  have here : isCore0Peripheral addr = false := by
    rw [← offset_zero addr]
    exact plain 0 (by cases width <;> decide)
  cases width with
  | byte =>
    have same : fabric.StoreKept addr .byte ↔ fabric.BridgeKept 1 addr := by
      unfold StoreKept BridgeKept
      simp only [jitStore, jitLoad, memoryWrite8, here, Bool.false_eq_true, if_false, write8,
        Width.bytes]
    exact same.trans (@bridgeKept_iff fabric 1 addr agrees (by omega) (by omega) plain)
  | half =>
    have same : fabric.StoreKept addr .half ↔ fabric.BridgeKept 2 addr := by
      unfold StoreKept BridgeKept
      simp only [jitStore, jitLoad, memoryWrite16, here, Bool.false_eq_true, if_false, write16,
        Width.bytes]
    exact same.trans (@bridgeKept_iff fabric 2 addr agrees (by omega) (by omega) plain)
  | word => exact wordKept_iff agrees plain
  | double => exact doubleKept_iff agrees plain

/-- A byte stored to a page that is not mapped, right after boot. -/
theorem not_storeKept_unmapped :
    clockFabric.vtlb.Agrees clockFabric.core0 ∧ isCore0Peripheral 0x20000000 = false ∧
      ¬ clockFabric.StoreKept 0x20000000 .byte := by
  refine ⟨clockFabric_agrees, by decide, fun kept => ?_⟩
  have back := (kept 0x5a (by decide)).1
  revert back
  decide +kernel

theorem storeKept_iguana : clockFabric.StoreKept 0xb0000000 .word := by
  refine (storeKept_iff clockFabric 0xb0000000 .word clockFabric_agrees (by decide +kernel)).mpr
    ⟨.inr (by decide +kernel), ?_⟩
  have ram : ∀ index, index < 4 →
      clockFabric.source (offset 0xb0000000 index) = some (.ram (0xb0000000 + index)) := by
    decide +kernel
  intro index below ptr here
  rw [ram index below] at here
  cases Option.some.inj here

end Fabric

end ZeeboLle.System
