import ZeeboLle.SaveState.Manager

/-! What a save-state file gives back. Both copy loops move their region as one block, so a record
of the file is a header and the bytes of its region, and reading the record puts the region and
its bytes into the engine. A region that is mapped already keeps the permissions it has. -/
namespace ZeeboLle.SaveState

open Paging Unicorn

namespace ZeeboSaveStateManager

theorem ioChunk_pos : 0 < ioChunk := by decide

theorem readExact_append (front rest : List Byte) :
    readExact (front ++ rest) front.length = some (front, rest) := by
  rw [readExact, if_pos (by simp), List.take_left, List.drop_left]

/-- One round over mapped memory. -/
theorem writeChunks_step {uc : UcEngine} {begin size rounds done n : Nat} (more : done < size)
    (chunk : n = min ioChunk (size - done)) (mapped : uc.map.Backs (begin + done) n) :
    writeChunks uc begin size (rounds + 1) done =
      (writeChunks uc begin size rounds (done + n)).map (segment uc.bytes (begin + done) n ++ ·) := by
  rw [writeChunks, if_pos more, ← chunk]
  simp only [UcEngine.ucMemRead, if_pos mapped]
  cases writeChunks uc begin size rounds (done + n) <;> rfl

/-- Over mapped memory the chunks written are one block. -/
theorem writeChunks_eq {uc : UcEngine} {begin size : Nat} (backs : uc.map.Backs begin size)
    {rounds done : Nat} (within : done ≤ size) (enough : size - done ≤ rounds) :
    writeChunks uc begin size rounds done = some (segment uc.bytes (begin + done) (size - done)) := by
  induction rounds generalizing done with
  | zero =>
    have all : size - done = 0 := by omega
    rw [writeChunks, all]
    rfl
  | succ rounds ih =>
    by_cases more : done < size
    · obtain ⟨n, chunk⟩ : ∃ n, n = min ioChunk (size - done) := ⟨_, rfl⟩
      have positive := ioChunk_pos
      have mapped : uc.map.Backs (begin + done) n := by
        intro index below
        rw [Nat.add_assoc]
        exact backs (done + index) (by omega)
      have parts : size - done = n + (size - (done + n)) := by omega
      rw [writeChunks_step more chunk mapped, ih (by omega) (by omega), Option.map_some, parts,
        segment_add, Nat.add_assoc]
    · have all : size - done = 0 := by omega
      rw [writeChunks, if_neg more, all]
      rfl

/-- One round over mapped memory. -/
theorem loadChunks_step {uc : UcEngine} {begin size rounds done : Nat} {chunk rest : List Byte}
    (more : done < size) (full : chunk.length = min ioChunk (size - done))
    (mapped : uc.map.Backs (begin + done) chunk.length) :
    loadChunks begin size (rounds + 1) done uc (chunk ++ rest) =
      loadChunks begin size rounds (done + chunk.length)
        { uc with bytes := patch uc.bytes (begin + done) chunk } rest := by
  rw [loadChunks, if_pos more, ← full]
  simp only [readExact_append, UcEngine.ucMemWrite, if_pos mapped, if_true]

/-- Over mapped memory the chunks read are one block. -/
theorem loadChunks_eq {uc : UcEngine} {begin size : Nat} (backs : uc.map.Backs begin size)
    {rounds done : Nat} {data : List Byte} (rest : List Byte) (within : done ≤ size)
    (enough : size - done ≤ rounds) (whole : data.length = size - done) :
    loadChunks begin size rounds done uc (data ++ rest) =
      ({ uc with bytes := patch uc.bytes (begin + done) data }, some rest) := by
  induction rounds generalizing uc done data with
  | zero =>
    obtain rfl : data = [] := List.eq_nil_of_length_eq_zero (by omega)
    rw [loadChunks, patch_nil]
    rfl
  | succ rounds ih =>
    by_cases more : done < size
    · have positive := ioChunk_pos
      -- the first chunk of what is left, and the bytes behind it
      obtain ⟨chunk, later, rfl, full⟩ : ∃ chunk later, data = chunk ++ later ∧
          chunk.length = min ioChunk (size - done) :=
        ⟨data.take _, data.drop _, (List.take_append_drop (min ioChunk (size - done)) data).symm,
          by rw [List.length_take]; omega⟩
      rw [List.length_append] at whole
      have mapped : uc.map.Backs (begin + done) chunk.length := by
        intro index below
        rw [Nat.add_assoc]
        exact backs (done + index) (by omega)
      have later := @ih { uc with bytes := patch uc.bytes (begin + done) chunk } backs
        (done + chunk.length) later (by omega) (by omega) (by omega)
      rw [List.append_assoc, loadChunks_step more full mapped, later, ← Nat.add_assoc, patch_append]
    · obtain rfl : data = [] := List.eq_nil_of_length_eq_zero (by omega)
      rw [loadChunks, if_neg more, patch_nil]
      rfl

/-- What `write_regions` asks of a region. -/
structure Storable (region : UcMemRegion) : Prop where
  ordered : region.begin ≤ region.last
  nonempty : region.size ≠ 0
  bounded : region.size ≤ maxRegionSize

/-- The bytes of a region. -/
def contents (source : Nat → Byte) (region : UcMemRegion) : List Byte :=
  segment source region.begin.toNat region.size.toNat

def record (core : CoreId) (source : Nat → Byte) (region : UcMemRegion) : List Byte :=
  (regionHeader core region).bytes ++ contents source region

/-- The engine with the region mapped and holding the bytes of the source. -/
def receive (source : Nat → Byte) (uc : UcEngine) (region : UcMemRegion) : UcEngine :=
  { uc with
    map := uc.map.withRegion region
    bytes := patch uc.bytes region.begin.toNat (contents source region) }

variable {region present : UcMemRegion} {source : Nat → Byte} {core : CoreId}

theorem Storable.toNat_size (storable : Storable region) :
    region.begin.toNat + region.size.toNat = region.last.toNat + 1 :=
  region.toNat_size storable.ordered storable.nonempty

theorem Storable.backs {map : MemoryMap} (storable : Storable region)
    (mapped : present ∈ map.regions) (same : present.SameRange region) :
    map.Backs region.begin.toNat region.size.toNat := by
  have whole := storable.toNat_size
  apply map.backs_of_covers mapped
  intro index below
  exact same.covers ⟨by omega, by omega⟩

theorem writeRegions_cons {uc : UcEngine} {regions : List UcMemRegion} (storable : Storable region)
    (mapped : region ∈ uc.map.regions) :
    writeRegions uc core (region :: regions) =
      (writeRegions uc core regions).map (record core uc.bytes region ++ ·) := by
  have ordered : ¬ region.last < region.begin := BitVec.not_lt.mpr storable.ordered
  have sized : ¬ (region.size = 0 ∨ region.size > maxRegionSize) :=
    not_or.mpr ⟨storable.nonempty, BitVec.not_lt.mpr storable.bounded⟩
  have backs := storable.backs mapped ⟨rfl, rfl⟩
  rw [writeRegions, if_neg ordered, if_neg sized, writeChunks_eq backs (Nat.zero_le _) (Nat.sub_le _ _)]
  cases writeRegions uc core regions with
  | none => rfl
  | some later =>
    simp only [Option.map_some, record, List.append_assoc]
    rfl

/-- The regions of an engine are written exactly when each may be stored. -/
theorem writeRegions_iff {uc : UcEngine} {regions : List UcMemRegion} {written : List Byte}
    (mapped : ∀ region ∈ regions, region ∈ uc.map.regions) :
    writeRegions uc core regions = some written ↔
      (∀ region ∈ regions, Storable region) ∧ written = regions.flatMap (record core uc.bytes) := by
  induction regions generalizing written with
  | nil => simp [writeRegions, eq_comm]
  | cons region regions ih =>
    have here := mapped region List.mem_cons_self
    have ih := fun later => @ih later fun other member => mapped other (List.mem_cons_of_mem _ member)
    by_cases storable : Storable region
    · rw [writeRegions_cons storable here, Option.map_eq_some_iff, List.forall_mem_cons,
        List.flatMap_cons]
      constructor
      · rintro ⟨later, done, rfl⟩
        obtain ⟨rest, rfl⟩ := (ih later).mp done
        exact ⟨⟨storable, rest⟩, rfl⟩
      · rintro ⟨⟨_, rest⟩, rfl⟩
        exact ⟨_, (ih _).mpr ⟨rest, rfl⟩, rfl⟩
    · constructor
      · intro done
        refine absurd ?_ storable
        rw [writeRegions] at done
        split at done
        · cases done
        · split at done
          · cases done
          · rename_i _ sized
            rw [not_or] at sized
            exact ⟨uc.map.ordered region here, sized.1, BitVec.not_lt.mp sized.2⟩
      · rintro ⟨all, -⟩
        exact absurd (all region List.mem_cons_self) storable

theorem not_malformed (storable : Storable region) : malformed (regionHeader core region) = false := by
  have known := decide_eq_false core.not_one_lt_word
  have ordered := decide_eq_false (BitVec.not_lt.mpr storable.ordered)
  have bounded := decide_eq_false (BitVec.not_lt.mpr storable.bounded)
  simp only [malformed, regionHeader, Bool.or_eq_false_iff, bne_eq_false_iff_eq, beq_eq_false_iff_ne]
  exact ⟨⟨⟨⟨⟨known, ordered⟩, rfl⟩, storable.nonempty⟩, bounded⟩, region.begin_add_size⟩

/-- Reading a record back. -/
theorem loadRegion_record {engines : Engines} (source : Nat → Byte) (rest : List Byte) (storable : Storable region)
    (takes : (engines core).config.takesMapping region.begin region.size region.perms = true)
    (fits : (engines core).map.Fits region) :
    loadRegion engines (record core source region ++ rest) =
      (Function.update engines core (receive source (engines core) region), some rest) := by
  obtain ⟨error, bytes, known, mapped, outside⟩ :=
    UcEngine.ucMemMap_proper storable.ordered storable.nonempty takes
  obtain ⟨present, member, same⟩ := fits.exists_withRegion storable.ordered
  have backs := storable.backs member same
  have whole := storable.toNat_size
  have copied := @loadChunks_eq { engines core with map := (engines core).map.withRegion region, bytes }
    region.begin.toNat region.size.toNat backs region.size.toNat 0 (contents source region) rest
    (Nat.zero_le _) (Nat.sub_le _ _) (length_segment _ _ _)
  have under : patch bytes region.begin.toNat (contents source region) =
      patch (engines core).bytes region.begin.toNat (contents source region) := by
    apply patch_congr
    intro byte apart
    rw [contents, length_segment] at apart
    exact outside byte fun inside => by have := inside.1; have := inside.2; omega
  have accepted : ¬ (error ≠ .ok ∧ error ≠ .map) := by rcases known with rfl | rfl <;> simp
  rw [Nat.add_zero, under] at copied
  rw [loadRegion, record, List.append_assoc, ← ZeeboMemRegionHeader.length_bytes (regionHeader core region),
    readExact_append]
  simp only [ZeeboMemRegionHeader.ofBytes_bytes, not_malformed storable, Bool.false_eq_true, if_false]
  simp only [regionHeader, CoreId.ofWord_word, mapped, if_neg accepted, copied]
  rfl

/-- An engine into which the regions can be loaded one after the other. -/
structure Admits (uc : UcEngine) (regions : List UcMemRegion) : Prop where
  storable : ∀ region ∈ regions, Storable region
  takes : ∀ region ∈ regions, uc.config.takesMapping region.begin region.size region.perms = true
  fits : ∀ region ∈ regions, uc.map.Fits region
  apart : regions.Pairwise UcMemRegion.Apart

/-- The engine after all of them. -/
def receiveAll (source : Nat → Byte) (uc : UcEngine) (regions : List UcMemRegion) : UcEngine :=
  regions.foldl (receive source) uc

variable {uc : UcEngine} {regions : List UcMemRegion} {address : Nat}

theorem Admits.tail (admits : Admits uc (region :: regions)) :
    Admits (receive source uc region) regions where
  storable later member := admits.storable later (List.mem_cons_of_mem _ member)
  takes later member := admits.takes later (List.mem_cons_of_mem _ member)
  fits later member := by
    have apart := (List.pairwise_cons.mp admits.apart).1 later member
    exact (admits.fits later (List.mem_cons_of_mem _ member)).withRegion_apart apart
  apart := (List.pairwise_cons.mp admits.apart).2

/-- The loop over the records of one core, with more to come. -/
theorem loadRegions_records {engines : Engines} (source : Nat → Byte)
    (admits : Admits (engines core) regions) (more : Nat) (rest : List Byte) :
    loadRegions (regions.length + more) engines (regions.flatMap (record core source) ++ rest) =
      loadRegions more (Function.update engines core (receiveAll source (engines core) regions)) rest := by
  induction regions generalizing engines with
  | nil =>
    rw [receiveAll, List.foldl_nil, Function.update_eq_self, List.length_nil, Nat.zero_add]
    rfl
  | cons region regions ih =>
    have first := loadRegion_record source (regions.flatMap (record core source) ++ rest)
      (admits.storable region List.mem_cons_self) (admits.takes region List.mem_cons_self)
      (admits.fits region List.mem_cons_self)
    have later := @ih (Function.update engines core (receive source (engines core) region))
      (by rw [Function.update_self]; exact admits.tail)
    rw [Function.update_self, Function.update_idem] at later
    rw [List.length_cons, Nat.add_right_comm, List.flatMap_cons, List.append_assoc, loadRegions, first]
    exact later

theorem receiveAll_config (source : Nat → Byte) (uc : UcEngine) (regions : List UcMemRegion) :
    (receiveAll source uc regions).config = uc.config := by
  induction regions generalizing uc with
  | nil => rfl
  | cons region regions ih => exact ih (receive source uc region)

/-- What was mapped stays mapped as it was. -/
theorem mem_receiveAll (mapped : present ∈ uc.map.regions) :
    present ∈ (receiveAll source uc regions).map.regions := by
  induction regions generalizing uc with
  | nil => exact mapped
  | cons region regions ih => exact @ih (receive source uc region) (MemoryMap.mem_withRegion mapped)

/-- A region absent, or present with its own permissions, is mapped in the end. -/
theorem Admits.mem_receiveAll (admits : Admits uc regions) (member : region ∈ regions)
    (perms : uc.map.SamePerms region) : region ∈ (receiveAll source uc regions).map.regions := by
  induction regions generalizing uc with
  | nil => cases member
  | cons first regions ih =>
    have ordered := (admits.storable region member).ordered
    rcases List.mem_cons.mp member with rfl | later
    · have mapped := (admits.fits region member).mem_withRegion ordered perms
      exact @ZeeboSaveStateManager.mem_receiveAll _ source (receive source uc region) regions mapped
    · have apart := (List.pairwise_cons.mp admits.apart).1 region later
      exact @ih (receive source uc first) admits.tail later (perms.withRegion_apart ordered apart)

/-- Bytes outside the regions are untouched. -/
theorem receiveAll_outside (source : Nat → Byte) (uc : UcEngine)
    (storable : ∀ region ∈ regions, Storable region)
    (outside : ∀ region ∈ regions, ¬ region.Covers address) :
    (receiveAll source uc regions).bytes address = uc.bytes address := by
  induction regions generalizing uc with
  | nil => rfl
  | cons region regions ih =>
    have later := ih (receive source uc region)
      (fun later member => storable later (List.mem_cons_of_mem _ member))
      (fun later member => outside later (List.mem_cons_of_mem _ member))
    have whole := (storable region List.mem_cons_self).toNat_size
    have apart := outside region List.mem_cons_self
    rw [UcMemRegion.Covers] at apart
    refine later.trans (patch_apart ?_)
    rw [contents, length_segment]
    omega

/-- Bytes inside come from the source. -/
theorem Admits.receiveAll_inside (admits : Admits uc regions) (member : region ∈ regions)
    (inside : region.Covers address) :
    (receiveAll source uc regions).bytes address = source address := by
  induction regions generalizing uc with
  | nil => cases member
  | cons first regions ih =>
    rcases List.mem_cons.mp member with rfl | later
    · have apart := (List.pairwise_cons.mp admits.apart).1
      have storable := (List.forall_mem_cons.mp admits.storable).2
      have frame := receiveAll_outside source (receive source uc region) storable
        fun later member => (apart later member).not_covers inside
      have whole := (admits.storable region List.mem_cons_self).toNat_size
      obtain ⟨low, high⟩ := inside
      obtain ⟨index, rfl⟩ := Nat.exists_eq_add_of_le low
      have below : index < (contents source region).length := by
        rw [contents, length_segment]
        omega
      exact frame.trans ((patch_inside below).trans (getElem_segment below))
    · exact @ih (receive source uc first) admits.tail later

/-- When `save_state` returns true. -/
structure Saveable (engines : Engines) : Prop where
  contexts : ∀ core, (engines core).ucContextSize ≤ 0xFFFFFFFF
  counted : (engines .core0).map.regions.length + (engines .core1).map.regions.length ≤ maxRegions
  storable : ∀ core, ∀ region ∈ (engines core).map.regions, Storable region

/-- The records of one core. -/
def records (engines : Engines) (core : CoreId) : List Byte :=
  (engines core).map.regions.flatMap (record core (engines core).bytes)

def saveFile (engines : Engines) (counters : Counters) : List Byte :=
  (stateHeader engines counters).bytes ++ ((engines .core0).context ++ ((engines .core1).context ++
    (records engines .core0 ++ records engines .core1)))

variable {saved target : Engines} {counters held : Counters} {file : List Byte}

theorem saveState_iff :
    saveState saved counters = some file ↔ Saveable saved ∧ file = saveFile saved counters := by
  have regions0 := fun written => @writeRegions_iff .core0 (saved .core0) _ written fun _ member => member
  have regions1 := fun written => @writeRegions_iff .core1 (saved .core1) _ written fun _ member => member
  unfold saveState
  by_cases large : (saved .core0).ucContextSize > 0xFFFFFFFF ∨ (saved .core1).ucContextSize > 0xFFFFFFFF
  · rw [if_pos large]
    refine ⟨fun none => (nomatch none), fun ⟨saveable, _⟩ => ?_⟩
    have bound0 := saveable.contexts .core0
    have bound1 := saveable.contexts .core1
    omega
  by_cases many : (saved .core0).map.regions.length > maxRegions ∨
      (saved .core1).map.regions.length > maxRegions - (saved .core0).map.regions.length
  · rw [if_neg large, if_pos many]
    refine ⟨fun none => (nomatch none), fun ⟨saveable, _⟩ => ?_⟩
    have counted := saveable.counted
    omega
  rw [if_neg large, if_neg many]
  simp only [Option.bind_eq_bind, Option.bind_eq_some_iff, Option.pure_def, Option.some.injEq]
  constructor
  · rintro ⟨written0, done0, written1, done1, rfl⟩
    obtain ⟨storable0, rfl⟩ := (regions0 written0).mp done0
    obtain ⟨storable1, rfl⟩ := (regions1 written1).mp done1
    refine ⟨⟨fun core => ?_, by omega, fun core => ?_⟩, rfl⟩
    · cases core <;> omega
    · cases core
      · exact storable0
      · exact storable1
  · rintro ⟨saveable, rfl⟩
    exact ⟨_, (regions0 _).mpr ⟨saveable.storable .core0, rfl⟩, _,
      (regions1 _).mpr ⟨saveable.storable .core1, rfl⟩, rfl⟩

theorem readFront_saveFile (saveable : Saveable saved)
    (sized : ∀ core, (target core).ucContextSize = (saved core).ucContextSize) :
    readFront target (saveFile saved counters) =
      some ⟨stateHeader saved counters, (saved .core0).context, (saved .core1).context,
        records saved .core0 ++ records saved .core1⟩ := by
  have size0 : (stateHeader saved counters).c0ContextSize.toNat = (saved .core0).ucContextSize := by
    have bound := saveable.contexts .core0
    rw [stateHeader, BitVec.toNat_ofNat]
    omega
  have size1 : (stateHeader saved counters).c1ContextSize.toNat = (saved .core1).ucContextSize := by
    have bound := saveable.contexts .core1
    rw [stateHeader, BitVec.toNat_ofNat]
    omega
  have count : ¬ (stateHeader saved counters).numMemRegions.toNat > maxRegions := by
    have bound := saveable.counted
    have small := Nat.mod_le ((saved .core0).map.regions.length + (saved .core1).map.regions.length) (2 ^ 32)
    rw [stateHeader, BitVec.toNat_ofNat]
    omega
  have context0 := readExact_append (saved .core0).context
    ((saved .core1).context ++ (records saved .core0 ++ records saved .core1))
  have context1 := readExact_append (saved .core1).context (records saved .core0 ++ records saved .core1)
  simp only [readFront, saveFile, sized]
  rw [← ZeeboLLEStateHeader.length_bytes (stateHeader saved counters), readExact_append]
  simp only [Option.bind_eq_bind, Option.bind_some, ZeeboLLEStateHeader.ofBytes_bytes]
  rw [if_neg (by simpa [stateHeader] using count), if_neg (by simp [size0, size1])]
  simp only [UcEngine.ucContextSize, context0, context1, Option.bind_some]
  rfl

/-- The regions of both cores, in the order of the file. -/
theorem loadRegions_saveFile (saveable : Saveable saved)
    (admits : ∀ core, Admits (target core) (saved core).map.regions) :
    loadRegions (stateHeader saved counters).numMemRegions.toNat target
        (records saved .core0 ++ records saved .core1) =
      (fun core => receiveAll (saved core).bytes (target core) (saved core).map.regions, some []) := by
  have count : (stateHeader saved counters).numMemRegions.toNat =
      (saved .core0).map.regions.length + ((saved .core1).map.regions.length + 0) := by
    have bound := saveable.counted
    have small : maxRegions < 2 ^ 32 := by decide
    rw [stateHeader, BitVec.toNat_ofNat, Nat.mod_eq_of_lt (by omega), Nat.add_zero]
  have first := loadRegions_records (saved .core0).bytes (admits .core0)
    ((saved .core1).map.regions.length + 0) (records saved .core1)
  have apart : CoreId.core1 ≠ .core0 := by decide
  have second := @loadRegions_records .core1 (saved .core1).map.regions
    (Function.update target .core0
      (receiveAll (saved .core0).bytes (target .core0) (saved .core0).map.regions)) (saved .core1).bytes
    (by rw [Function.update_of_ne apart]; exact admits .core1) 0 []
  rw [List.append_nil, Function.update_of_ne apart] at second
  rw [count, records, first, records, second, loadRegions]
  congr 1
  funext core
  cases core <;> rfl

/-- Contexts that both engines take. -/
theorem restoreContexts_taken {engines : Engines} {contexts : CoreId → List Byte}
    (takes : ∀ core, (engines core).config.takesContext (contexts core) = true) :
    restoreContexts engines (contexts .core0) (contexts .core1) =
      (true, fun core => { engines core with context := contexts core }) := by
  simp only [restoreContexts, UcEngine.ucContextRestore, takes, if_true,
    Function.update_of_ne (show CoreId.core1 ≠ .core0 by decide), decide_true, Prod.mk.injEq, true_and]
  funext core
  cases core <;> rfl

/-- The engines a saved file leaves. -/
def restored (saved target : Engines) : Engines := fun core =>
  { receiveAll (saved core).bytes (target core) (saved core).map.regions with
    context := (saved core).context }

theorem loadState_saveFile (saveable : Saveable saved)
    (sized : ∀ core, (target core).ucContextSize = (saved core).ucContextSize)
    (admits : ∀ core, Admits (target core) (saved core).map.regions)
    (lossless : ∀ core, (target core).config.takesContext (saved core).context = true) :
    loadState (saveFile saved counters) target held = ⟨true, restored saved target, counters⟩ := by
  have contexts := @restoreContexts_taken
    (fun core => receiveAll (saved core).bytes (target core) (saved core).map.regions)
    (fun core => (saved core).context) fun core => by rw [receiveAll_config]; exact lossless core
  rw [loadState, readFront_saveFile saveable sized]
  simp only [loadRegions_saveFile saveable admits, contexts]
  rfl

/-- The load succeeded and gave everything back. -/
structure Restores (saved : Engines) (counters : Counters) (loaded : Loaded) : Prop where
  ok : loaded.ok = true
  contexts : ∀ core, (loaded.engines core).context = (saved core).context
  bytes : ∀ core, ∀ region ∈ (saved core).map.regions, ∀ address, region.Covers address →
    (loaded.engines core).bytes address = (saved core).bytes address
  permissions : ∀ core, ∀ region ∈ (saved core).map.regions, region ∈ (loaded.engines core).map.regions
  counters : loaded.counters = counters

/-- A target of the same kind as the saved engines: contexts of the same size that it takes,
regions whose arguments it takes, each absent from it or present over the same range. -/
structure Matches (saved target : Engines) : Prop where
  sized : ∀ core, (target core).ucContextSize = (saved core).ucContextSize
  lossless : ∀ core, (target core).config.takesContext (saved core).context = true
  takes : ∀ core, ∀ region ∈ (saved core).map.regions,
    (target core).config.takesMapping region.begin region.size region.perms = true
  fits : ∀ core, ∀ region ∈ (saved core).map.regions, (target core).map.Fits region

theorem Matches.admits (same : Matches saved target) (saveable : Saveable saved) (core : CoreId) :
    Admits (target core) (saved core).map.regions where
  storable := saveable.storable core
  takes := same.takes core
  fits := same.fits core
  apart := (saved core).map.apart

/-- All but the permissions always come back. -/
theorem Matches.loadState_eq (same : Matches saved target) (kept : saveState saved counters = some file)
    (held : Counters) :
    Saveable saved ∧ loadState file target held = ⟨true, restored saved target, counters⟩ := by
  obtain ⟨saveable, rfl⟩ := saveState_iff.mp kept
  exact ⟨saveable, loadState_saveFile saveable same.sized (same.admits saveable) same.lossless⟩

/-- What the target has mapped it still has, with its own permissions. -/
theorem mem_restored {present : UcMemRegion} {core : CoreId} (mapped : present ∈ (target core).map.regions) :
    present ∈ (restored saved target core).map.regions := mem_receiveAll mapped

/-- A saved state comes back whole exactly when every saved region that the target has mapped
already has the saved permissions there: a mapped region is overwritten but never protected
again. -/
theorem restores_iff (saved target : Engines) (counters held : Counters) (file : List Byte)
    (kept : saveState saved counters = some file) (same : Matches saved target) :
    Restores saved counters (loadState file target held) ↔
      ∀ core, ∀ region ∈ (saved core).map.regions, (target core).map.SamePerms region := by
  obtain ⟨saveable, loaded⟩ := same.loadState_eq kept held
  rw [loaded]
  constructor
  · intro restores core region member present mapped range
    have whole := restores.permissions core region member
    have still : present ∈ (restored saved target core).map.regions := mem_restored mapped
    rw [MemoryMap.eq_of_sameRange still whole range]
  · intro perms
    refine ⟨rfl, fun _ => rfl, fun core region member address inside => ?_,
      fun core region member => ?_, rfl⟩
    · exact (same.admits saveable core).receiveAll_inside member inside
    · exact (same.admits saveable core).mem_receiveAll member (perms core region member)

/-! One page on core 0 and nothing on core 1. -/

def page (perms : Word) : UcMemRegion := ⟨0x1000, 0x1FFF, perms⟩

def onePage (perms : Word) (fill : Byte) : Engines
  | .core0 => ⟨.arm, .single (page perms) (by simp [page]), fun _ => fill, [fill]⟩
  | .core1 => ⟨.arm, .empty, fun _ => fill, [fill, fill]⟩

theorem saveable_onePage (perms : Word) (fill : Byte) : Saveable (onePage perms fill) where
  contexts core := by cases core <;> simp [onePage, UcEngine.ucContextSize]
  counted := by simp [onePage, MemoryMap.single, MemoryMap.empty, maxRegions]
  storable core region member := by
    cases core with
    | core0 =>
      obtain rfl := List.mem_singleton.mp member
      exact ⟨by simp [page], by simp [page, UcMemRegion.size], by simp [page, UcMemRegion.size]; decide⟩
    | core1 => cases member

theorem matches_onePage (before now : Byte) (present : Word) :
    Matches (onePage 7 before) (onePage present now) where
  sized core := by cases core <;> rfl
  lossless core := by cases core <;> rfl
  takes core region member := by
    cases core with
    | core0 =>
      obtain rfl := List.mem_singleton.mp member
      have whole : UcConfig.arm.takesMapping (page 7).begin (page 7).size (page 7).perms = true := by decide
      exact whole
    | core1 => cases member
  fits core region member := by
    cases core with
    | core0 =>
      obtain rfl := List.mem_singleton.mp member
      exact .inr ⟨page present, List.mem_singleton_self _, rfl, rfl⟩
    | core1 => cases member

/-- A page that is mapped with the saved permissions and other bytes. -/
theorem restores_iff_onePage :
    saveState (onePage 7 0xAA) ⟨1, 2, 3, 4⟩ = some (saveFile (onePage 7 0xAA) ⟨1, 2, 3, 4⟩) ∧
      Restores (onePage 7 0xAA) ⟨1, 2, 3, 4⟩
        (loadState (saveFile (onePage 7 0xAA) ⟨1, 2, 3, 4⟩) (onePage 7 0) ⟨0, 0, 0, 0⟩) := by
  have kept := saveState_iff.mpr ⟨saveable_onePage 7 0xAA, @rfl _ (saveFile (onePage 7 0xAA) ⟨1, 2, 3, 4⟩)⟩
  refine ⟨kept, (restores_iff _ _ _ _ _ kept (matches_onePage 0xAA 0 7)).mpr ?_⟩
  intro core region member present mapped _
  cases core with
  | core0 =>
    obtain rfl := List.mem_singleton.mp member
    obtain rfl := List.mem_singleton.mp mapped
    rfl
  | core1 => cases member

/-- Saved with all permissions, loaded over the same page mapped read-only: the page stays
read-only. -/
theorem not_restores_readOnly :
    saveState (onePage 7 0xAA) ⟨1, 2, 3, 4⟩ = some (saveFile (onePage 7 0xAA) ⟨1, 2, 3, 4⟩) ∧
      Matches (onePage 7 0xAA) (onePage 1 0) ∧
      ¬ Restores (onePage 7 0xAA) ⟨1, 2, 3, 4⟩
        (loadState (saveFile (onePage 7 0xAA) ⟨1, 2, 3, 4⟩) (onePage 1 0) ⟨0, 0, 0, 0⟩) := by
  have kept := saveState_iff.mpr ⟨saveable_onePage 7 0xAA, @rfl _ (saveFile (onePage 7 0xAA) ⟨1, 2, 3, 4⟩)⟩
  have same := matches_onePage 0xAA 0 1
  refine ⟨kept, same, fun restores => ?_⟩
  rw [(same.loadState_eq kept _).2] at restores
  have whole := restores.permissions .core0 (page 7) (List.mem_singleton_self _)
  have still : page 1 ∈ (restored (onePage 7 0xAA) (onePage 1 0) .core0).map.regions :=
    mem_restored (List.mem_singleton_self _)
  have equal := MemoryMap.eq_of_sameRange still whole ⟨rfl, rfl⟩
  exact absurd (congrArg UcMemRegion.perms equal) (by decide)

end ZeeboSaveStateManager

end ZeeboLle.SaveState
