import ZeeboLle.Unicorn.View

/-! Host memory that two engines have mapped at the same addresses, such as SMEM between the two
cores: how the region is set up, and what each core sees of it when both access memory. -/
namespace ZeeboLle.System

open Unicorn Paging

/-- The numbers of the two engines. -/
local instance neZero_engines : NeZero 2 := ⟨by decide⟩

/-- Two engines over one host memory. -/
structure EnginePair where
  engines : Fin 2 → Memory
  common : ∀ c other, (engines c).host = (engines other).host

namespace EnginePair

/-- One engine changes; the host memory that it has written is the other's, too. -/
def withEngine (pair : EnginePair) (c : Fin 2) (mem : Memory) : EnginePair where
  engines other := if other = c then mem else { pair.engines other with host := mem.host }
  common first second := by
    have hosts (other : Fin 2) :
        (if other = c then mem else { pair.engines other with host := mem.host }).host = mem.host := by
      split
      · rfl
      · rfl
    rw [hosts, hosts]

/-- `backing.assign`: the vector's bytes are zero. -/
def assign (pair : EnginePair) (backing : HostPtr) (size : Nat) : EnginePair where
  engines c := { pair.engines c with
    host := fun ptr => if backing ≤ ptr ∧ ptr < backing + size then 0 else (pair.engines c).host ptr }
  common first second := by
    funext ptr
    dsimp only
    rw [pair.common first second]

/-- `map_shared_region_pair`; the pointer is where the vector has its bytes. -/
def mapSharedRegionPair (pair : EnginePair) (base size : Nat) (backing : HostPtr) (perms : Prot) :
    UcErr × EnginePair :=
  if size = 0 ∨ base % 0x1000 ≠ 0 ∨ size % 0x1000 ≠ 0 then (.arg, pair)
  else
    let pair := pair.assign backing size
    match (pair.engines 0).ucMemMapPtr base size perms backing with
    | (.ok, mem) =>
      let pair := pair.withEngine 0 mem
      match (pair.engines 1).ucMemMapPtr base size perms backing with
      | (.ok, mem) => (.ok, pair.withEngine 1 mem)
      | (err, _) => (err, pair.withEngine 0 ((pair.engines 0).ucMemUnmap base size).2)
    | (err, _) => (err, pair)

/-- A write of one of the cores. -/
structure CoreWrite where
  core : Fin 2
  start : Nat
  bytes : List Byte

def write (pair : EnginePair) (access : CoreWrite) : EnginePair :=
  pair.withEngine access.core ((pair.engines access.core).ucMemWrite access.start access.bytes).2

def run (pair : EnginePair) (accesses : List CoreWrite) : EnginePair := accesses.foldl write pair

/-- A write that its core has memory for. -/
def Fits (pair : EnginePair) (access : CoreWrite) : Bool :=
  (pair.engines access.core).backed access.start access.bytes.length

/-- The bytes after the writes that had memory, whichever core made them. -/
def viewAfter (pair : EnginePair) (accesses : List CoreWrite) (view : Nat → Byte) : Nat → Byte :=
  (accesses.filter pair.Fits).foldl (fun view access => patch view access.start access.bytes) view

def InRegion (base size address : Nat) : Prop := base ≤ address ∧ address < base + size

instance (base size address : Nat) : Decidable (InRegion base size address) :=
  inferInstanceAs (Decidable (_ ∧ _))

/-- In both engines the region is the vector, and the vector is nowhere else. -/
structure Shares (pair : EnginePair) (base size : Nat) (backing : HostPtr) : Prop where
  inside : ∀ c address, InRegion base size address →
    (pair.engines c).cell address = some (.host (backing + (address - base)))
  outside : ∀ c address, ¬InRegion base size address → ∀ offset, offset < size →
    (pair.engines c).cell address ≠ some (.host (backing + offset))

/-- No engine has the vector's memory mapped. -/
def Fresh (pair : EnginePair) (backing : HostPtr) (size : Nat) : Prop :=
  ∀ c address offset, offset < size → (pair.engines c).cell address ≠ some (.host (backing + offset))

variable {pair : EnginePair} {base size : Nat} {backing : HostPtr} {view : Nat → Byte}

/-- Every byte of the region is what the view says, for either core. -/
def Holds (pair : EnginePair) (base size : Nat) (view : Nat → Byte) : Prop :=
  ∀ c, (pair.engines c).Sees (InRegion base size) view

theorem Shares.owns (shares : pair.Shares base size backing) (c : Fin 2) :
    (pair.engines c).Owns (InRegion base size) where
  mapped address member := by
    rw [shares.inside c address member]
    rfl
  apart address other member also same := by
    rw [shares.inside c address member, shares.inside c other also] at same
    have offsets : address - base = other - base :=
      Nat.add_left_cancel (Cell.host.inj (Option.some.inj same))
    have lower := member.1
    have otherLower := also.1
    omega

@[simp] theorem engines_withEngine_self (pair : EnginePair) (c : Fin 2) (mem : Memory) :
    (pair.withEngine c mem).engines c = mem := if_pos rfl

theorem pages_write (pair : EnginePair) (access : CoreWrite) (c : Fin 2) :
    ((pair.write access).engines c).pages = (pair.engines c).pages := by
  have written : ((pair.engines access.core).ucMemWrite access.start access.bytes).2.pages =
      (pair.engines access.core).pages := by
    unfold Memory.ucMemWrite
    split
    · rfl
    · rfl
  rw [write, withEngine]
  dsimp only
  split
  · rename_i same
    rw [written, same]
  · rfl

theorem cell_congr {mem other : Memory} (pages : mem.pages = other.pages) : mem.cell = other.cell := by
  funext address
  rw [Memory.cell, Memory.cell, pages]

theorem cell_write (pair : EnginePair) (access : CoreWrite) (c : Fin 2) :
    ((pair.write access).engines c).cell = (pair.engines c).cell := cell_congr (pages_write pair access c)

theorem Shares.write (shares : pair.Shares base size backing) (access : CoreWrite) :
    (pair.write access).Shares base size backing := by
  refine ⟨fun c => ?_, fun c => ?_⟩
  · rw [cell_write]
    exact shares.inside c
  · rw [cell_write]
    exact shares.outside c

/-- A byte of the region, for either core, is a byte of the vector. -/
theorem Shares.byteAt (shares : pair.Shares base size backing) (c : Fin 2) {address : Nat}
    (member : InRegion base size address) :
    (pair.engines c).byteAt address = (pair.engines 0).host (backing + (address - base)) := by
  rw [Memory.byteAt_of_cell (shares.inside c address member), Memory.contents, pair.common c 0]

theorem Shares.holds (shares : pair.Shares base size backing)
    (bytes : ∀ address, InRegion base size address →
      (pair.engines 0).host (backing + (address - base)) = view address) : pair.Holds base size view :=
  fun c => ⟨shares.owns c, fun address member => (shares.byteAt c member).trans (bytes address member)⟩

/-- A write of either core, wherever it goes. -/
theorem Holds.write (shares : pair.Shares base size backing) (holds : pair.Holds base size view)
    (access : CoreWrite) : (pair.write access).Holds base size (pair.viewAfter [access] view) := by
  refine (shares.write access).holds fun address member => ?_
  have found := shares.inside access.core address member
  have before : (pair.engines access.core).host (backing + (address - base)) = view address := by
    rw [pair.common access.core 0, ← shares.byteAt 0 member]
    exact (holds 0).holds address member
  have hosts : ((pair.write access).engines 0).host =
      ((pair.engines access.core).ucMemWrite access.start access.bytes).2.host := by
    rw [(pair.write access).common 0 access.core, EnginePair.write, engines_withEngine_self]
  rw [hosts, Memory.ucMemWrite]
  by_cases fits : pair.Fits access = true
  · rw [viewAfter, List.filter_cons_of_pos fits, List.filter_nil, List.foldl_cons, List.foldl_nil,
      if_pos (by exact fits)]
    refine writeAll_reach (Memory.backed_iff.mp fits) found before.symm fun index below same => ?_
    -- a place whose cell is the vector's byte lies in the region, at the same offset
    have lower := member.1
    have upper := member.2
    by_cases inside : InRegion base size (access.start + index)
    · have here := shares.inside access.core _ inside
      rw [same] at here
      have offsets : address - base = access.start + index - base :=
        Nat.add_left_cancel (Cell.host.inj (Option.some.inj here))
      have least := inside.1
      omega
    · exact absurd same (shares.outside access.core _ inside _ (by omega))
  · rw [viewAfter, List.filter_cons_of_neg fits, List.filter_nil, List.foldl_nil, if_neg (by exact fits)]
    exact before

theorem fits_write (pair : EnginePair) (access : CoreWrite) : (pair.write access).Fits = pair.Fits := by
  funext later
  rw [Fits, Fits, Memory.backed, Memory.backed, Memory.cells, Memory.cells, cell_write]

theorem Holds.run (shares : pair.Shares base size backing) (holds : pair.Holds base size view)
    (accesses : List CoreWrite) :
    (pair.run accesses).Holds base size (pair.viewAfter accesses view) := by
  induction accesses generalizing pair view with
  | nil => exact holds
  | cons access accesses ih =>
    have rest := ih (shares.write access) (holds.write shares access)
    rw [viewAfter, fits_write] at rest
    have joined : pair.viewAfter (access :: accesses) view =
        (accesses.filter pair.Fits).foldl (fun view access => patch view access.start access.bytes)
          (pair.viewAfter [access] view) := by
      rw [viewAfter, viewAfter, ← List.foldl_append, ← List.filter_append]
      rfl
    rw [joined]
    exact rest

/-- A range of whole pages in a guest's address space. -/
structure Proper (base size : Nat) : Prop where
  filled : size ≠ 0
  aligned : base % 0x1000 = 0
  pages : size % 0x1000 = 0

theorem mem_pageSpan_iff (proper : Proper base size) (address : Nat) :
    address / 0x1000 ∈ pageSpan base size ↔ InRegion base size address := by
  have aligned := proper.aligned
  have pages := proper.pages
  rw [Span.mem_iff, pageSpan, InRegion]
  dsimp only
  omega

/-- An engine that has bound the range to the vector. -/
structure BoundTo (mem bound : Memory) (base size : Nat) (backing : HostPtr) : Prop where
  host : bound.host = mem.host
  ram : bound.ram = mem.ram
  undone : (bound.ucMemUnmap base size).2 = mem
  cell : Proper base size → base + size ≤ 0x100000000 → ∀ address, bound.cell address =
    if InRegion base size address then some (.host (backing + (address - base))) else mem.cell address

theorem cell_install {mem : Memory} {perms : Prot} (proper : Proper base size)
    (guest : base + size ≤ 0x100000000) (address : Nat) :
    Memory.cell { mem with
      pages := mem.pages.install (pageSpan base size) (Memory.hostPages base perms backing) } address =
      if InRegion base size address then some (.host (backing + (address - base)))
      else mem.cell address := by
  rw [Memory.cell, Memory.cell]
  dsimp only
  by_cases inside : InRegion base size address
  · have lower := inside.1
    have upper := inside.2
    have aligned := proper.aligned
    have offset : (address / 0x1000 - base / 0x1000) * 0x1000 + address % 0x1000 = address - base := by
      omega
    rw [if_pos inside, if_pos (by omega),
      PageTable.install_of_mem ((mem_pageSpan_iff proper address).mpr inside), Option.map_some]
    simp only [Memory.hostPages]
    rw [Nat.add_assoc, offset]
  · rw [if_neg inside, PageTable.install_of_not_mem fun member =>
      inside ((mem_pageSpan_iff proper address).mp member)]

theorem exists_bound (mem : Memory) (perms : Prot) (valid : backing ≠ nullptr)
    (free : mem.pages.free (pageSpan base size) = true) : ∃ bound,
      mem.ucMemMapPtr base size perms backing = (.ok, bound) ∧ BoundTo mem bound base size backing := by
  refine ⟨_, Memory.ucMemMapPtr_free valid free, rfl, rfl, ?_,
    fun proper guest => cell_install proper guest⟩
  rw [Memory.ucMemUnmap_full]
  · have pages : (mem.pages.install (pageSpan base size) (Memory.hostPages base perms backing)).remove
        (pageSpan base size) = mem.pages := by
      apply PageTable.ext
      intro page
      by_cases member : page ∈ pageSpan base size
      · rw [PageTable.remove_of_mem member, PageTable.free_iff.mp free page member]
      · rw [PageTable.remove_of_not_mem member, PageTable.install_of_not_mem member]
    dsimp only
    rw [pages]
  · refine PageTable.full_iff.mpr fun page member => ?_
    dsimp only
    rw [PageTable.install_of_mem member]
    rfl

/-- Assigning the vector changes nothing that is mapped. -/
theorem byteAt_assign (fresh : pair.Fresh backing size) (c : Fin 2) (address : Nat) :
    ((pair.assign backing size).engines c).byteAt address = (pair.engines c).byteAt address := by
  have cells : ((pair.assign backing size).engines c).cell = (pair.engines c).cell := cell_congr rfl
  rw [Memory.byteAt, Memory.byteAt, cells]
  cases found : (pair.engines c).cell address with
  | none => rfl
  | some cell =>
    cases cell with
    | ram place => rfl
    | host ptr =>
      have apart : ¬(backing ≤ ptr ∧ ptr < backing + size) := by
        rintro ⟨lower, upper⟩
        refine fresh c address (ptr - backing) (Nat.sub_lt_left_of_lt_add lower upper) ?_
        rw [found, Nat.add_sub_cancel' lower]
      exact if_neg apart

section

variable {perms : Prot}

theorem map_improper (improper : ¬Proper base size) :
    pair.mapSharedRegionPair base size backing perms = (.arg, pair) := by
  refine if_pos ?_
  by_contra fine
  push Not at fine
  exact improper ⟨fine.1, fine.2.1, fine.2.2⟩

variable (proper : Proper base size) (valid : backing ≠ nullptr)

include proper valid

theorem map_taken_first (taken : (pair.engines 0).pages.free (pageSpan base size) = false) :
    pair.mapSharedRegionPair base size backing perms = (.map, pair.assign backing size) := by
  have refused : ((pair.assign backing size).engines 0).ucMemMapPtr base size perms backing =
      (.map, (pair.assign backing size).engines 0) := Memory.ucMemMapPtr_taken valid taken
  rw [mapSharedRegionPair, if_neg (by simp [proper.filled, proper.aligned, proper.pages])]
  simp only [refused]

theorem map_taken_second (first : (pair.engines 0).pages.free (pageSpan base size) = true)
    (taken : (pair.engines 1).pages.free (pageSpan base size) = false) :
    ∃ later, pair.mapSharedRegionPair base size backing perms = (.map, later) ∧
      ∀ c, later.engines c = (pair.assign backing size).engines c := by
  obtain ⟨bound, mapped, boundTo⟩ := exists_bound ((pair.assign backing size).engines 0) perms valid first
  have refused : (((pair.assign backing size).withEngine 0 bound).engines 1).ucMemMapPtr base size perms
      backing = (.map, ((pair.assign backing size).withEngine 0 bound).engines 1) :=
    Memory.ucMemMapPtr_taken valid taken
  rw [mapSharedRegionPair, if_neg (by simp [proper.filled, proper.aligned, proper.pages])]
  simp only [mapped, refused]
  refine ⟨_, rfl, fun c => ?_⟩
  rw [engines_withEngine_self, boundTo.undone]
  by_cases own : c = 0
  · rw [own, engines_withEngine_self]
  · have hosts := (pair.assign backing size).common c 0
    simp only [withEngine, if_neg own, ← hosts]

/-- Both engines have bound the range. -/
theorem map_free (free : ∀ c, (pair.engines c).pages.free (pageSpan base size) = true) :
    ∃ later, pair.mapSharedRegionPair base size backing perms = (.ok, later) ∧
      ∀ c, ∃ bound, BoundTo ((pair.assign backing size).engines c) bound base size backing ∧
        later.engines c = bound := by
  obtain ⟨first, mapped, firstBound⟩ :=
    exists_bound ((pair.assign backing size).engines 0) perms valid (free 0)
  have hosts : first.host = ((pair.assign backing size).engines 1).host :=
    firstBound.host.trans ((pair.assign backing size).common 0 1)
  have waiting : ((pair.assign backing size).withEngine 0 first).engines 1 =
      (pair.assign backing size).engines 1 := by
    simp only [withEngine, hosts]
    rfl
  obtain ⟨second, mappedToo, secondBound⟩ :=
    exists_bound ((pair.assign backing size).engines 1) perms valid (free 1)
  rw [mapSharedRegionPair, if_neg (by simp [proper.filled, proper.aligned, proper.pages])]
  simp only [mapped, waiting, mappedToo]
  refine ⟨_, rfl, fun c => ?_⟩
  by_cases own : c = 1
  · rw [own, engines_withEngine_self]
    exact ⟨second, secondBound, rfl⟩
  · obtain rfl : c = 0 := by omega
    refine ⟨first, firstBound, ?_⟩
    have kept : second.host = first.host := secondBound.host.trans hosts.symm
    change { ((pair.assign backing size).withEngine 0 first).engines 0 with host := second.host } = first
    rw [engines_withEngine_self, kept]

end

/-- What the call comes to, and what the cores then see of the region. -/
structure SharedRegion (pair : EnginePair) (base size : Nat) (mapped : UcErr × EnginePair) : Prop where
  succeeds : mapped.1 = .ok ↔ Proper base size ∧
    ∀ c, (pair.engines c).pages.free (pageSpan base size) = true
  refused : mapped.1 ≠ .ok → ∀ c, (mapped.2.engines c).pages = (pair.engines c).pages ∧
    (mapped.2.engines c).byteAt = (pair.engines c).byteAt
  elsewhere : ∀ c address, ¬InRegion base size address →
    (mapped.2.engines c).byteAt address = (pair.engines c).byteAt address
  coherent : mapped.1 = .ok → ∀ accesses c start count,
    (∀ index, index < count → InRegion base size (start + index)) →
      ((mapped.2.run accesses).engines c).ucMemRead start count =
        some (segment (mapped.2.viewAfter accesses fun _ => 0) start count)

theorem BoundTo.byteAt {mem bound : Memory} (boundTo : BoundTo mem bound base size backing)
    (proper : Proper base size) (guest : base + size ≤ 0x100000000) {address : Nat}
    (outside : ¬InRegion base size address) : bound.byteAt address = mem.byteAt address := by
  have contents : bound.contents = mem.contents := by
    funext cell
    cases cell with
    | ram place => exact congrFun boundTo.ram place
    | host ptr => exact congrFun boundTo.host ptr
  rw [Memory.byteAt, Memory.byteAt, boundTo.cell proper guest, if_neg outside, contents]

/-- SMEM is one memory: once the call succeeds, every read that a core makes inside the region brings
what the last write of either core put there, wherever that core's other writes went; when the call
fails no engine has changed. -/
theorem shared_region (pair : EnginePair) {base size : Nat} {backing : HostPtr} (perms : Prot)
    (guest : base + size ≤ 0x100000000) (valid : backing ≠ nullptr) (fresh : pair.Fresh backing size) :
    pair.SharedRegion base size (pair.mapSharedRegionPair base size backing perms) := by
  by_cases proper : Proper base size
  · have kept (c : Fin 2) : ((pair.assign backing size).engines c).byteAt = (pair.engines c).byteAt :=
      funext (byteAt_assign fresh c)
    by_cases free : ∀ c, (pair.engines c).pages.free (pageSpan base size) = true
    · obtain ⟨later, mapped, bound⟩ := @map_free pair _ _ _ perms proper valid free
      have boundTo (c : Fin 2) :
          BoundTo ((pair.assign backing size).engines c) (later.engines c) base size backing := by
        obtain ⟨_, boundTo, rfl⟩ := bound c
        exact boundTo
      have shares : later.Shares base size backing := by
        refine ⟨fun c address inside => ?_, fun c address outside offset below => ?_⟩
        · rw [(boundTo c).cell proper guest, if_pos inside]
        · rw [(boundTo c).cell proper guest, if_neg outside]
          exact fresh c address offset below
      have zero : later.Holds base size fun _ => 0 := by
        refine shares.holds fun address inside => ?_
        rw [(boundTo 0).host]
        have lower := inside.1
        have upper := inside.2
        exact if_pos ⟨Nat.le_add_right _ _, Nat.add_lt_add_left (show address - base < size by omega) _⟩
      rw [mapped]
      refine ⟨⟨fun _ => ⟨proper, free⟩, fun _ => rfl⟩, fun failed => absurd rfl failed,
        fun c address outside => ?_, fun _ accesses c start count inside => ?_⟩
      · rw [(boundTo c).byteAt proper guest outside, kept c]
      · exact (zero.run shares accesses c).ucMemRead start count inside
    · have refused : ∃ later, pair.mapSharedRegionPair base size backing perms = (.map, later) ∧
          ∀ c, later.engines c = (pair.assign backing size).engines c := by
        by_cases first : (pair.engines 0).pages.free (pageSpan base size) = true
        · refine map_taken_second proper valid first (Bool.eq_false_iff.mpr fun second => free fun c => ?_)
          by_cases own : c = 0
          · rwa [own]
          · rwa [show c = 1 by omega]
        · exact ⟨_, map_taken_first proper valid (Bool.eq_false_iff.mpr first), fun _ => rfl⟩
      obtain ⟨later, mapped, same⟩ := refused
      rw [mapped]
      refine ⟨⟨nofun, fun both => absurd both.2 free⟩, fun _ c => ?_, fun c address _ => ?_, nofun⟩
      · rw [same c]
        exact ⟨rfl, kept c⟩
      · rw [same c, kept c]
  · rw [map_improper proper]
    exact ⟨⟨nofun, fun both => absurd both.1 proper⟩, fun _ _ => ⟨rfl, rfl⟩, fun _ _ _ => rfl,
      nofun⟩

/-- Two engines with nothing mapped. -/
def blank : EnginePair := ⟨fun _ => .blank, fun _ _ => rfl⟩

theorem shared_region_smem : blank.SharedRegion 0x01f00000 0x00200000
    (blank.mapSharedRegionPair 0x01f00000 0x00200000 0x7f0000000000 .all) := by
  refine shared_region blank .all (by decide) (by decide) fun c address offset _ => ?_
  rw [Memory.cell]
  split
  · intro found
    cases found
  · intro found
    cases found

end EnginePair

end ZeeboLle.System
