import ZeeboLle.Linux.EhciStages

/-! The asynchronous schedule in memory. A run of the controller executes each Active stage that
the chains reach once, in the order of the first visits. -/
namespace ZeeboLle.Linux

open Unicorn Paging

/-- The address in a link pointer, 0 for one that is terminated. -/
def linkAddr (pointer : Word) : Word := if pointer &&& 1 ≠ 0 then 0 else pointer &&& ~~~0x1f#32

/-- The stages of a chain from an address on. -/
def Follows (ram : FlatMemory) : Word → List Stage → Prop
  | cur, [] => cur = 0
  | cur, stage :: rest => cur = stage.addr ∧ Follows ram (linkAddr (ram.read32 stage.addr)) rest

instance Follows.decidable (ram : FlatMemory) : (cur : Word) → (chain : List Stage) →
    Decidable (Follows ram cur chain)
  | cur, [] => inferInstanceAs (Decidable (cur = 0))
  | cur, stage :: rest =>
    have := Follows.decidable ram (linkAddr (ram.read32 stage.addr)) rest
    inferInstanceAs (Decidable (cur = stage.addr ∧ _))

/-- A queue head with the chains from its current qTD and from the overlay's next one. -/
structure Head where
  addr : Word
  current : List Stage
  next : List Stage

def Head.visits (head : Head) : List Stage := head.current ++ head.next

def Head.words (head : Head) : List Word := FlatMemory.cells head.addr 48

/-- A queue head in memory, whose overlay is idle. Its endpoint is 0 if it has work. -/
@[mk_iff]
structure Head.InRam (mapped : Mapping) (ram : FlatMemory) (head : Head) : Prop where
  backed : mapped.backed head.addr 48 = true
  overlay : tokenActive (ram.read32 (head.addr + 0x18)) = false
  current : Follows ram (ram.read32 (head.addr + 0x0c) &&& ~~~0x1f#32) head.current
  next : Follows ram (linkAddr (ram.read32 (head.addr + 0x10))) head.next
  control : ∀ stage ∈ head.visits, stage.active = true →
    (ram.read32 (head.addr + 4) >>> 8) &&& 0xf = 0

instance (mapped : Mapping) (ram : FlatMemory) (head : Head) : Decidable (head.InRam mapped ram) :=
  decidable_of_iff' _ (Head.inRam_iff ..)

/-- The controller walks a chain for 32 turns, and takes the address of the overlay's next qTD
also where it is terminated. -/
@[mk_iff]
structure Head.Walked (ram : FlatMemory) (head : Head) : Prop where
  current : head.current.length ≤ 32
  next : head.next.length ≤ 32
  terminated : ram.read32 (head.addr + 0x10) &&& 1 ≠ 0 → ram.read32 (head.addr + 0x10) &&& ~~~0x1f#32 = 0

instance (ram : FlatMemory) (head : Head) : Decidable (head.Walked ram) :=
  decidable_of_iff' _ (Head.walked_iff ..)

/-- The queue heads from one on; the last is terminated or links to the first. -/
def Ring (ram : FlatMemory) (list : Word) : Head → List Head → Prop
  | head, [] => linkAddr (ram.read32 head.addr) = 0 ∨ linkAddr (ram.read32 head.addr) = list
  | head, next :: rest =>
    linkAddr (ram.read32 head.addr) = next.addr ∧ next.addr ≠ list ∧ Ring ram list next rest

instance Ring.decidable (ram : FlatMemory) (list : Word) : (head : Head) → (others : List Head) →
    Decidable (Ring ram list head others)
  | head, [] => inferInstanceAs (Decidable (linkAddr (ram.read32 head.addr) = 0 ∨ _))
  | head, next :: rest =>
    have := Ring.decidable ram list next rest
    inferInstanceAs (Decidable (linkAddr (ram.read32 head.addr) = next.addr ∧ next.addr ≠ list ∧ _))

/-- A visit adds an Active stage that is new. -/
def advance (done : List Stage) (stage : Stage) : List Stage :=
  if stage ∈ done ∨ stage.active = false then done else done ++ [stage]

def Ehci.executeAll (mapped : Mapping) (ehci : Ehci) (stages : List Stage) : Ehci :=
  stages.foldl (Ehci.execute mapped) ehci

/-- What holds of the words of a list is decided by going through the list. -/
instance decidableWords (cells : List Word) (holds : Word → Prop) [DecidablePred holds] :
    Decidable (∀ cell ∈ cells, holds cell) := List.decidableBAll holds cells

/-- No stage writes into cells that are kept, or into the token of another. -/
@[mk_iff]
structure Apart (stages : List Stage) (kept : List Word) : Prop where
  status_kept : ∀ stage ∈ stages, ∀ cell ∈ stage.statusCells, cell ∉ kept
  data_kept : ∀ stage ∈ stages, ∀ cell ∈ stage.dataCells, cell ∉ kept
  data_status : ∀ stage ∈ stages, ∀ cell ∈ stage.dataCells, ∀ other ∈ stages, cell ∉ other.statusCells
  status_status : ∀ stage ∈ stages, ∀ cell ∈ stage.statusCells, ∀ other ∈ stages, stage ≠ other →
    cell ∉ other.statusCells

instance (stages : List Stage) (kept : List Word) : Decidable (Apart stages kept) :=
  decidable_of_iff' _ (apart_iff ..)

/-- Stages in memory with their buffers. Their words but for the tokens are kept. -/
structure Staged (mapped : Mapping) (ram : FlatMemory) (stages : List Stage) (kept : List Word) :
    Prop where
  inRam : ∀ stage ∈ stages, stage.InRam mapped ram
  fits : ∀ stage ∈ stages, stage.active = true → stage.pid = 1 → QtdFits mapped stage.bufs stage.total
  words : ∀ stage ∈ stages, stage.words ⊆ kept
  apart : Apart stages kept

/-- Some stages have been executed, and nothing else has happened. -/
structure Progress (mapped : Mapping) (start : Ehci) (stages : List Stage) (kept : List Word)
    (done : List Stage) (ehci : Ehci) : Prop where
  within : done ⊆ stages
  state : ehci.state = (start.executeAll mapped done).state
  xfers : ehci.usbXfers = (start.executeAll mapped done).usbXfers
  usbcmd : ehci.regs.usbcmd = start.regs.usbcmd
  list : ehci.regs.asyncListAddr = start.regs.asyncListAddr
  same : ∀ cell ∈ kept, ehci.state.ram cell = start.state.ram cell
  waiting : ∀ stage ∈ stages, stage ∉ done → ehci.state.ram.read32 (stage.addr + 8) = stage.token
  finished : ∀ stage ∈ done, tokenActive (ehci.state.ram.read32 (stage.addr + 8)) = false

variable {mapped : Mapping} {start ehci : Ehci} {stages done : List Stage} {kept : List Word}

/-- Words that are kept are what they were. -/
theorem Progress.read32 (progress : Progress mapped start stages kept done ehci) {addr : Word}
    (inside : FlatMemory.cells addr 4 ⊆ kept) :
    ehci.state.ram.read32 addr = start.state.ram.read32 addr :=
  FlatMemory.read32_congr fun cell member => progress.same cell (inside member)

theorem executeAll_append (ehci : Ehci) (stages : List Stage) (stage : Stage) :
    ehci.executeAll mapped (stages ++ [stage]) = (ehci.executeAll mapped stages).execute mapped stage := by
  rw [Ehci.executeAll, List.foldl_append]
  rfl

/-- An Active stage that is still waiting is executed. -/
theorem Progress.execute (unmapped : mapped 0#20 = false) (staged : Staged mapped start.state.ram stages kept)
    (progress : Progress mapped start stages kept done ehci) {stage : Stage}
    (member : stage ∈ stages) (active : stage.active = true) :
    Progress mapped start stages kept (done ++ [stage]) (ehci.execute mapped stage) := by
  have backed := (staged.inRam stage member).backed
  have fits := staged.fits stage member active
  have apart := staged.apart
  have unchanged {cell : Word} (status : cell ∉ stage.statusCells) (data : cell ∉ stage.dataCells) :
      (ehci.state.execute mapped stage).ram cell = ehci.state.ram cell :=
    execute_outside unmapped backed active fits status data
  have token {other : Stage} (present : other ∈ stages) (different : stage ≠ other) :
      (ehci.state.execute mapped stage).ram.read32 (other.addr + 8) =
        ehci.state.ram.read32 (other.addr + 8) := by
    refine FlatMemory.read32_congr fun cell inside => unchanged ?_ ?_
    · exact fun status => apart.status_status stage member cell status other present different inside
    · exact fun data => apart.data_status stage member cell data other present inside
  refine ⟨?_, ?_, ?_, progress.usbcmd, progress.list, ?_, ?_, ?_⟩
  · exact List.append_subset.mpr ⟨progress.within, List.cons_subset.mpr ⟨member, List.nil_subset _⟩⟩
  · rw [executeAll_append]
    exact congrArg (UsbState.execute mapped · stage) progress.state
  · rw [executeAll_append, Ehci.execute, Ehci.execute]
    dsimp only
    rw [progress.state, progress.xfers]
  · intro cell inside
    refine (unchanged ?_ ?_).trans (progress.same cell inside)
    · exact fun status => apart.status_kept stage member cell status inside
    · exact fun data => apart.data_kept stage member cell data inside
  · intro other present missing
    rw [List.mem_append, not_or, List.mem_singleton] at missing
    exact (token present (Ne.symm missing.2)).trans (progress.waiting other present missing.1)
  · intro other found
    by_cases same : stage = other
    · subst same
      exact execute_status unmapped backed fits
    · have earlier : other ∈ done := by
        rcases List.mem_append.mp found with earlier | last
        · exact earlier
        · exact absurd (List.mem_singleton.mp last).symm same
      exact (congrArg tokenActive (token (progress.within earlier) same)).trans (progress.finished other earlier)

/-- A visit executes its stage or passes over it. -/
theorem Progress.visit (unmapped : mapped 0#20 = false) (staged : Staged mapped start.state.ram stages kept)
    (progress : Progress mapped start stages kept done ehci) {stage : Stage} (member : stage ∈ stages)
    {endpoint : Word} {isControl : Bool}
    (control : stage.active = true → endpoint = 0 ∧ isControl = true) (isIntr : Bool) :
    Progress mapped start stages kept (advance done stage)
      (ehci.usbRunQtd mapped endpoint stage.addr isControl isIntr).2 := by
  have inRam := staged.inRam stage member
  have token : start.state.ram.read32 (stage.addr + 8) = stage.token := congrArg Stage.token inRam.same
  unfold advance
  split
  · rename_i passed
    have idle : tokenActive (ehci.state.ram.read32 (stage.addr + 8)) = false := by
      by_cases earlier : stage ∈ done
      · exact progress.finished stage earlier
      · rw [progress.waiting stage member earlier]
        exact passed.resolve_left earlier
    rwa [usbRunQtd_idle idle]
  · rename_i fresh
    obtain ⟨missing, active⟩ := not_or.mp fresh
    rw [Bool.not_eq_false] at active
    obtain ⟨rfl, rfl⟩ := control active
    have here : stage.InRam mapped ehci.state.ram := by
      refine ⟨inRam.backed, Eq.trans ?_ inRam.same⟩
      have word (offset : Nat) (inside : offset + 4 ≤ 20) :
          ehci.state.ram.read32 (stage.addr + (12 + BitVec.ofNat 32 offset)) =
            start.state.ram.read32 (stage.addr + (12 + BitVec.ofNat 32 offset)) := by
        rw [← BitVec.add_assoc]
        exact progress.read32 fun cell found =>
          staged.words stage member (List.mem_append_right _ (FlatMemory.cells_subset _ inside found))
      have status := (progress.waiting stage member missing).trans token.symm
      rw [Stage.ofRam, Stage.ofRam, status]
      congr 1
      exact congrArg₂ List.cons (word 0 (by decide)) <| congrArg₂ List.cons (word 4 (by decide)) <|
        congrArg₂ List.cons (word 8 (by decide)) <| congrArg₂ List.cons (word 12 (by decide)) <|
          congrArg₂ List.cons (word 16 (by decide)) rfl
    rw [usbRunQtd_active here active]
    exact progress.execute unmapped staged member active

/-- Page 0 has no memory. -/
theorem backed_ne (unmapped : mapped 0#20 = false) {addr : Word} {size : Nat} (positive : 0 < size)
    (backed : mapped.backed addr size = true) : addr ≠ 0 := by
  rintro rfl
  unfold Mapping.backed at backed
  rw [Bool.and_eq_true, List.all_eq_true] at backed
  have first := backed.2 0 (List.mem_range.mpr positive)
  rw [show ((0 : Word) + BitVec.ofNat 32 0).extractLsb' 12 20 = 0#20 by decide, unmapped] at first
  cases first

theorem readWords_one {addr : Word} (backed : mapped.backed addr 4 = true) (ram : FlatMemory) :
    ∃ words, readWords mapped ram addr 1 = some words ∧ words 0 = ram.read32 addr :=
  ⟨_, if_pos backed, congrArg ram.read32 (BitVec.add_zero addr)⟩

theorem aligned_even (word : Word) : word &&& ~~~0x1f#32 &&& 1 = 0 := by
  rw [BitVec.and_assoc]
  exact BitVec.and_zero

theorem Follows.nil_of_zero (unmapped : mapped 0#20 = false) {ram memory : FlatMemory} {chain : List Stage}
    (inRam : ∀ stage ∈ chain, stage.InRam mapped ram) (follows : Follows memory 0 chain) : chain = [] := by
  cases chain with
  | nil => rfl
  | cons stage rest =>
    have backed := (inRam stage (List.mem_cons_self ..)).backed
    exact absurd follows.1.symm (backed_ne unmapped (by decide) backed)

/-- A chain that is short enough is visited to its end. -/
theorem Progress.chain (unmapped : mapped 0#20 = false) (staged : Staged mapped start.state.ram stages kept)
    {endpoint : Word} {isControl isIntr : Bool} {chain : List Stage} (within : chain ⊆ stages)
    (control : ∀ stage ∈ chain, stage.active = true → endpoint = 0 ∧ isControl = true)
    {turns : Nat} (short : chain.length ≤ turns) {cur : Word} (even : cur &&& 1 = 0)
    (follows : Follows start.state.ram cur chain) {found : Bool × Ehci}
    (progress : Progress mapped start stages kept done found.2) :
    Progress mapped start stages kept (chain.foldl advance done)
      (Ehci.chain mapped (fun ehci cur => ehci.usbRunQtd mapped endpoint cur isControl isIntr)
        turns cur found).2 := by
  induction chain generalizing turns cur done found with
  | nil =>
    cases turns with
    | zero => exact progress
    | succ turns =>
      rw [Ehci.chain, if_pos (.inl follows)]
      exact progress
  | cons stage rest ih =>
    cases turns with
    | zero => cases short
    | succ turns =>
      obtain ⟨rfl, later⟩ := follows
      have member := within (List.mem_cons_self ..)
      have inRam := staged.inRam stage member
      have inside : ∀ other ∈ rest, other.InRam mapped start.state.ram := fun other present =>
        staged.inRam other (within (List.mem_cons_of_mem _ present))
      have notEnd : ¬(stage.addr = 0 ∨ stage.addr &&& 1 ≠ 0) :=
        not_or.mpr ⟨backed_ne unmapped (by decide) inRam.backed, not_not.mpr even⟩
      have visited := progress.visit unmapped staged member
        (control stage (List.mem_cons_self ..)) isIntr
      rw [Ehci.chain, if_neg notEnd]
      dsimp only
      obtain ⟨words, read, next⟩ := readWords_one (Mapping.backed_prefix inRam.backed (by decide : 4 ≤ 32))
        (found.2.usbRunQtd mapped endpoint stage.addr isControl isIntr).2.state.ram
      have link : words 0 = start.state.ram.read32 stage.addr :=
        next.trans (visited.read32 fun cell found => staged.words stage member
          (List.mem_append_left _ (FlatMemory.cells_prefix stage.addr (by decide : 4 ≤ 8) found)))
      rw [read]
      dsimp only
      rw [link]
      by_cases terminated : start.state.ram.read32 stage.addr &&& 1 ≠ 0
      · rw [linkAddr, if_pos terminated] at later
        rw [if_pos terminated, later.nil_of_zero unmapped inside]
        exact visited
      · have follows := later
        rw [linkAddr, if_neg terminated] at follows
        rw [if_neg terminated]
        exact ih (fun _ present => within (List.mem_cons_of_mem _ present))
          (fun other present => control other (List.mem_cons_of_mem _ present))
          (Nat.le_of_succ_le_succ short) (aligned_even _) follows visited

/-- A queue head in memory, walked to the ends of its chains. -/
theorem Progress.engineHead (unmapped : mapped 0#20 = false)
    (staged : Staged mapped start.state.ram stages kept) {head : Head}
    (inRam : head.InRam mapped start.state.ram) (walked : head.Walked start.state.ram)
    (within : head.visits ⊆ stages) (words : head.words ⊆ kept) {w : Nat → Word}
    (read : ∀ index < 12, w index = start.state.ram.read32 (head.addr + BitVec.ofNat 32 (4 * index)))
    {found : Bool × Ehci} (progress : Progress mapped start stages kept done found.2) :
    Progress mapped start stages kept (head.visits.foldl advance done)
      (Ehci.engineHead mapped head.addr w found).2 := by
  have control (stage : Stage) (member : stage ∈ head.visits) (active : stage.active = true) :
      (w 1 >>> 8) &&& 0xf = 0 ∧ ((w 1 >>> 8) &&& 0xf == 0) = true := by
    have endpoint : (w 1 >>> 8) &&& 0xf = 0 := by
      rw [read 1 (by decide)]
      exact inRam.control stage member active
    exact ⟨endpoint, beq_iff_eq.mpr endpoint⟩
  have current : Follows start.state.ram (w 3 &&& ~~~0x1f#32) head.current := by
    rw [read 3 (by decide)]
    exact inRam.current
  have next : Follows start.state.ram (w 4 &&& ~~~0x1f#32) head.next := by
    have pointer : w 4 = start.state.ram.read32 (head.addr + 0x10) := read 4 (by decide)
    have link : linkAddr (w 4) = w 4 &&& ~~~0x1f#32 := by
      unfold linkAddr
      split
      · rename_i terminated
        rw [pointer] at terminated ⊢
        exact (walked.terminated terminated).symm
      · rfl
    rw [← link, pointer]
    exact inRam.next
  have overlay : tokenActive (found.2.state.ram.read32 (head.addr + 0x10 + 8)) = false := by
    have same : found.2.state.ram.read32 (head.addr + 0x18) = start.state.ram.read32 (head.addr + 0x18) :=
      progress.read32 (List.Subset.trans (FlatMemory.cells_subset head.addr (by decide : 0x18 + 4 ≤ 48)) words)
    rw [BitVec.add_assoc]
    exact (congrArg tokenActive same).trans inRam.overlay
  have passed (isControl isIntr : Bool) (endpoint : Word) :
      found.2.usbRunOverlay mapped endpoint head.addr (w 3 &&& ~~~0x1f#32) isControl isIntr =
        (false, found.2) := by
    rw [Ehci.usbRunOverlay, usbRunQtd_idle overlay]
    exact if_neg (by simp)
  unfold Ehci.engineHead
  dsimp only
  rw [passed, Head.visits, List.foldl_append]
  refine Progress.chain unmapped staged (fun _ member => within (List.mem_append_right _ member))
    (fun stage member => control stage (List.mem_append_right _ member)) walked.next (aligned_even _) next ?_
  exact Progress.chain unmapped staged (fun _ member => within (List.mem_append_left _ member))
    (fun stage member => control stage (List.mem_append_left _ member)) walked.current (aligned_even _)
    current progress

theorem Progress.readHead (progress : Progress mapped start stages kept done ehci) {addr : Word}
    (backed : mapped.backed addr 48 = true) (words : FlatMemory.cells addr 48 ⊆ kept) :
    ∃ w, readWords mapped ehci.state.ram addr 12 = some w ∧
      ∀ index < 12, w index = start.state.ram.read32 (addr + BitVec.ofNat 32 (4 * index)) := by
  refine ⟨_, if_pos backed, fun index inside => progress.read32 ?_⟩
  exact List.Subset.trans (FlatMemory.cells_subset addr (by omega : 4 * index + 4 ≤ 48)) words

/-- One queue head is walked, and its link tells where to go on. -/
theorem Progress.engineTurn (unmapped : mapped 0#20 = false)
    (staged : Staged mapped start.state.ram stages kept) {head : Head}
    (inRam : head.InRam mapped start.state.ram) (walked : head.Walked start.state.ram)
    (within : head.visits ⊆ stages) (words : head.words ⊆ kept) {found : Bool × Ehci}
    (progress : Progress mapped start stages kept done found.2) (list : Word) (turns : Nat) :
    ∃ visited : Bool × Ehci,
      Progress mapped start stages kept (head.visits.foldl advance done) visited.2 ∧
      Ehci.engineHeads mapped list (turns + 1) head.addr found =
        if linkAddr (start.state.ram.read32 head.addr) = 0 ∨
          linkAddr (start.state.ram.read32 head.addr) = list then visited
        else Ehci.engineHeads mapped list turns (linkAddr (start.state.ram.read32 head.addr)) visited := by
  obtain ⟨w, read, same⟩ := progress.readHead inRam.backed words
  refine ⟨_, progress.engineHead unmapped staged inRam walked within words same, ?_⟩
  have link : w 0 = start.state.ram.read32 head.addr :=
    (same 0 (by decide)).trans (congrArg start.state.ram.read32 (BitVec.add_zero head.addr))
  rw [Ehci.engineHeads, if_neg (backed_ne unmapped (by decide) inRam.backed), read]
  dsimp only
  rw [link]
  by_cases terminated : start.state.ram.read32 head.addr &&& 1 ≠ 0
  · rw [linkAddr, if_pos terminated, if_pos (.inl terminated), if_pos (.inl rfl)]
  · rw [linkAddr, if_neg terminated]
    by_cases back : start.state.ram.read32 head.addr &&& ~~~0x1f#32 = list
    · rw [if_pos (.inr back), if_pos (.inr back)]
    · rw [if_neg (not_or.mpr ⟨terminated, back⟩)]
      split
      · rename_i passed
        rw [passed.resolve_right back]
        cases turns with
        | zero => rfl
        | succ turns => exact if_pos rfl
      · rfl

/-- The queue heads of a ring are walked in turn. -/
theorem Progress.engineHeads (unmapped : mapped 0#20 = false)
    (staged : Staged mapped start.state.ram stages kept) {list : Word} {head : Head} {others : List Head}
    (inRam : ∀ other ∈ head :: others, other.InRam mapped start.state.ram)
    (walked : ∀ other ∈ head :: others, other.Walked start.state.ram)
    (within : (head :: others).flatMap Head.visits ⊆ stages)
    (words : ∀ other ∈ head :: others, other.words ⊆ kept)
    (ring : Ring start.state.ram list head others) {turns : Nat} (short : others.length < turns)
    {found : Bool × Ehci} (progress : Progress mapped start stages kept done found.2) :
    Progress mapped start stages kept (((head :: others).flatMap Head.visits).foldl advance done)
      (Ehci.engineHeads mapped list turns head.addr found).2 := by
  induction others generalizing head turns done found with
  | nil =>
    obtain ⟨turns, rfl⟩ := Nat.exists_eq_succ_of_ne_zero (Nat.ne_of_gt short)
    rw [List.flatMap_cons, List.flatMap_nil, List.append_nil] at within ⊢
    obtain ⟨visited, visits, turn⟩ := progress.engineTurn unmapped staged (inRam head (List.mem_cons_self ..))
      (walked head (List.mem_cons_self ..)) within (words head (List.mem_cons_self ..)) list turns
    rw [Ring] at ring
    rw [turn, if_pos ring]
    exact visits
  | cons next rest ih =>
    obtain ⟨turns, rfl⟩ := Nat.exists_eq_succ_of_ne_zero (Nat.ne_of_gt (Nat.zero_lt_of_lt short))
    obtain ⟨link, notFirst, later⟩ := ring
    have present := inRam next (List.mem_cons_of_mem _ (List.mem_cons_self ..))
    rw [List.flatMap_cons] at within ⊢
    obtain ⟨visited, visits, turn⟩ := progress.engineTurn unmapped staged (inRam head (List.mem_cons_self ..))
      (walked head (List.mem_cons_self ..)) (List.append_subset.mp within).1
      (words head (List.mem_cons_self ..)) list turns
    rw [turn, link, if_neg (not_or.mpr ⟨backed_ne unmapped (by decide) present.backed, notFirst⟩),
      List.foldl_append]
    exact ih (fun other member => inRam other (List.mem_cons_of_mem _ member))
      (fun other member => walked other (List.mem_cons_of_mem _ member)) (List.append_subset.mp within).2
      (fun other member => words other (List.mem_cons_of_mem _ member)) later (Nat.lt_of_succ_lt_succ short)
      visits

theorem Progress.usbRaiseIrq (progress : Progress mapped start stages kept done ehci) :
    Progress mapped start stages kept done ehci.usbRaiseIrq := by
  obtain ⟨within, state, xfers, usbcmd, list, same, waiting, finished⟩ := progress
  unfold Ehci.usbRaiseIrq
  dsimp only
  split
  · exact ⟨within, state, xfers, usbcmd, list, same, waiting, finished⟩
  · exact ⟨within, state, xfers, usbcmd, list, same, waiting, finished⟩

/-- The queue heads of the asynchronous list. -/
structure Schedule where
  first : Head
  others : List Head

namespace Schedule

def heads (schedule : Schedule) : List Head := schedule.first :: schedule.others

def visits (schedule : Schedule) : List Stage := schedule.heads.flatMap Head.visits

/-- The Active stages in the order of their first visits. -/
def order (schedule : Schedule) : List Stage := schedule.visits.foldl advance []

/-- The cells of its words but for tokens. -/
def words (schedule : Schedule) : List Word :=
  schedule.heads.flatMap Head.words ++ schedule.visits.flatMap Stage.words

/-- A schedule in memory that the controller is to execute, with some packets. -/
@[mk_iff]
structure InRam (mapped : Mapping) (regs : UsbRegs) (ram : FlatMemory) (packets : List Word)
    (schedule : Schedule) : Prop where
  enabled : regs.usbcmd &&& 0x20 ≠ 0
  list : regs.asyncListAddr &&& ~~~0x1f#32 = schedule.first.addr
  ring : Ring ram schedule.first.addr schedule.first schedule.others
  heads : ∀ head ∈ schedule.heads, head.InRam mapped ram
  stages : ∀ stage ∈ schedule.visits, stage.InRam mapped ram
  fits : ∀ stage ∈ schedule.visits, stage.active = true → stage.pid = 1 →
    QtdFits mapped stage.bufs stage.total
  apart : Apart schedule.visits (schedule.words ++ packets)

instance (mapped : Mapping) (regs : UsbRegs) (ram : FlatMemory) (packets : List Word)
    (schedule : Schedule) : Decidable (schedule.InRam mapped regs ram packets) :=
  decidable_of_iff' _ (inRam_iff ..)

/-- The controller goes on for 32 queue heads. -/
@[mk_iff]
structure Walked (ram : FlatMemory) (schedule : Schedule) : Prop where
  few : schedule.others.length < 32
  heads : ∀ head ∈ schedule.heads, head.Walked ram

instance (ram : FlatMemory) (schedule : Schedule) : Decidable (schedule.Walked ram) :=
  decidable_of_iff' _ (walked_iff ..)

end Schedule

theorem subset_advance (done visits : List Stage) : done ⊆ visits.foldl advance done := by
  induction visits generalizing done with
  | nil => exact List.Subset.refl _
  | cons stage rest ih =>
    refine List.Subset.trans ?_ (ih _)
    unfold advance
    split
    · exact List.Subset.refl _
    · exact List.subset_append_left _ _

theorem advance_all {visits : List Stage} {stage : Stage} (member : stage ∈ visits) :
    stage ∈ visits.foldl advance done ∨ stage.active = false := by
  induction visits generalizing done with
  | nil => cases member
  | cons first rest ih =>
    rcases List.mem_cons.mp member with rfl | later
    · by_cases active : stage.active = false
      · exact .inr active
      · refine .inl (subset_advance _ rest ?_)
        unfold advance
        split
        · rename_i passed
          exact passed.resolve_right active
        · exact List.mem_append_right _ (List.mem_singleton_self _)
    · exact ih later

/-- Visits after the first ones change nothing. -/
theorem advance_again {visits : List Stage}
    (all : ∀ stage ∈ visits, stage ∈ done ∨ stage.active = false) : visits.foldl advance done = done := by
  induction visits with
  | nil => rfl
  | cons stage rest ih =>
    rw [List.foldl_cons, advance, if_pos (all stage (List.mem_cons_self ..))]
    exact ih fun other member => all other (List.mem_cons_of_mem _ member)

variable {schedule : Schedule} {packets : List Word}

theorem Schedule.InRam.staged {regs : UsbRegs} {ram : FlatMemory}
    (inRam : schedule.InRam mapped regs ram packets) :
    Staged mapped ram schedule.visits (schedule.words ++ packets) where
  inRam := inRam.stages
  fits := inRam.fits
  words := fun stage member _ found => List.mem_append_left _ <| List.mem_append_right _ <|
    List.mem_flatMap.mpr ⟨stage, member, found⟩
  apart := inRam.apart

theorem Schedule.words_head {head : Head} (member : head ∈ schedule.heads) :
    head.words ⊆ schedule.words ++ packets := fun _ found =>
  List.mem_append_left _ <| List.mem_append_left _ <| List.mem_flatMap.mpr ⟨head, member, found⟩

/-- A run of the controller visits the whole schedule. -/
theorem Progress.usbEngineRun (unmapped : mapped 0#20 = false)
    (inRam : schedule.InRam mapped start.regs start.state.ram packets) (walked : schedule.Walked start.state.ram)
    (progress : Progress mapped start schedule.visits (schedule.words ++ packets) done ehci) :
    Progress mapped start schedule.visits (schedule.words ++ packets) (schedule.visits.foldl advance done)
      (ehci.usbEngineRun mapped) := by
  have list : ehci.regs.asyncListAddr &&& ~~~0x1f#32 = schedule.first.addr := by
    rw [progress.list]
    exact inRam.list
  have there := backed_ne unmapped (by decide) (inRam.heads schedule.first (List.mem_cons_self ..)).backed
  have enabled : ¬(ehci.regs.usbcmd &&& 0x20 = 0 ∨ schedule.first.addr = 0) := by
    rw [progress.usbcmd]
    exact not_or.mpr ⟨inRam.enabled, there⟩
  have visited : Progress mapped start schedule.visits (schedule.words ++ packets)
      (schedule.visits.foldl advance done)
      (Ehci.engineHeads mapped schedule.first.addr 32 schedule.first.addr (false, ehci)).2 :=
    Progress.engineHeads unmapped inRam.staged inRam.heads walked.heads (List.Subset.refl _)
      (fun _ member => Schedule.words_head member) inRam.ring walked.few progress
  unfold Ehci.usbEngineRun
  dsimp only
  rw [list, if_neg enabled]
  split
  · exact visited.usbRaiseIrq
  · exact visited

/-- Before the first run nothing has been executed. -/
theorem Progress.none (inRam : schedule.InRam mapped start.regs start.state.ram packets) :
    Progress mapped start schedule.visits (schedule.words ++ packets) [] start where
  within := List.nil_subset _
  state := rfl
  xfers := rfl
  usbcmd := rfl
  list := rfl
  same := fun _ _ => rfl
  waiting := fun stage member _ => congrArg Stage.token (inRam.stages stage member).same
  finished := fun _ missing => nomatch missing

/-- However often the controller runs, it executes each Active stage once. -/
theorem Progress.runs (unmapped : mapped 0#20 = false)
    (inRam : schedule.InRam mapped start.regs start.state.ram packets) (walked : schedule.Walked start.state.ram)
    (again : Nat) :
    Progress mapped start schedule.visits (schedule.words ++ packets) schedule.order
      ((Ehci.usbEngineRun mapped)^[again + 1] start) := by
  induction again with
  | zero => exact (Progress.none inRam).usbEngineRun unmapped inRam walked
  | succ again ih =>
    have settled : schedule.visits.foldl advance schedule.order = schedule.order :=
      advance_again fun stage member => advance_all member
    have run := ih.usbEngineRun unmapped inRam walked
    rw [settled] at run
    rwa [Function.iterate_succ_apply']

end ZeeboLle.Linux
