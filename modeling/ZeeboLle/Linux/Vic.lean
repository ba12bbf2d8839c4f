import ZeeboLle.Scheduling.Strides
import ZeeboLle.Unicorn.Memory
import Mathlib.Data.Nat.Prime.Basic

/-! The interrupt controller of the Linux machine: 64 lines in two words and one round-robin
cursor, which the delivery of an interrupt and reads of both vector registers move on alike. -/
namespace ZeeboLle.Linux

open Unicorn Scheduling

def vicOffEnclear0 : Word := 0x20
def vicOffEnset0 : Word := 0x30
def vicOffStatus0 : Word := 0x80
def vicOffClear0 : Word := 0xb0
def vicOffVecRd : Word := 0xd0
def vicOffVecPend : Word := 0xd4
def vicNoPend : Word := 0xffffffff

/-- `g_vic_en` and `g_vic_pending`. -/
structure VicLines where
  en0 : Word
  en1 : Word
  pending0 : Word
  pending1 : Word
deriving DecidableEq

namespace VicLines

def act0 (lines : VicLines) : Word := lines.pending0 &&& lines.en0
def act1 (lines : VicLines) : Word := lines.pending1 &&& lines.en1

/-- The test the scan makes of a line. -/
def isActive (lines : VicLines) (b : Word) : Bool :=
  (if b < 32 then lines.act0 else lines.act1) &&& (1#32 <<< (b &&& 31)) ≠ 0

/-- Whether `on_code_probe` enters the exception. -/
def delivers (lines : VicLines) (irqInService : Bool) (cpsr : Word) : Bool :=
  (lines.act0 ≠ 0 || lines.act1 ≠ 0) && !irqInService && cpsr &&& 0x80 = 0

/-- Pending and enabled. -/
def asserted (lines : VicLines) (b : Nat) : Bool :=
  if b < 32 then lines.pending0.getLsbD b && lines.en0.getLsbD b
  else lines.pending1.getLsbD (b - 32) && lines.en1.getLsbD (b - 32)

/-- The lines that are pending and enabled, in ascending order. -/
def assertedLines (lines : VicLines) : List Nat := (List.range 64).filter lines.asserted

end VicLines

structure LinuxVic where
  lines : VicLines
  cursor : Word
  irqInService : Bool
  irqDelivered : Nat

namespace LinuxVic

/-- The first active line from the cursor on. -/
def vicPickIrq (vic : LinuxVic) : Word × LinuxVic :=
  if vic.lines.act0 = 0 ∧ vic.lines.act1 = 0 then (vicNoPend, vic)
  else
    let scan := (List.range 64).map fun i => (vic.cursor + BitVec.ofNat 32 i) &&& 63
    match scan.find? vic.lines.isActive with
    | some b => (b, { vic with cursor := (b + 1) &&& 63 })
    | none => (vicNoPend, vic)

def onVicWrite (vic : LinuxVic) (off v : Word) : LinuxVic :=
  let lines := vic.lines
  if off = vicOffEnset0 then { vic with lines := { lines with en0 := lines.en0 ||| v } }
  else if off = vicOffEnset0 + 4 then { vic with lines := { lines with en1 := lines.en1 ||| v } }
  else if off = vicOffEnclear0 then { vic with lines := { lines with en0 := lines.en0 &&& ~~~v } }
  else if off = vicOffEnclear0 + 4 then { vic with lines := { lines with en1 := lines.en1 &&& ~~~v } }
  else if off = vicOffClear0 then
    { vic with lines := { lines with pending0 := lines.pending0 &&& ~~~v }, irqInService := false }
  else if off = vicOffClear0 + 4 then
    { vic with lines := { lines with pending1 := lines.pending1 &&& ~~~v }, irqInService := false }
  else vic

def onVicRead (vic : LinuxVic) (off : Word) : Word × LinuxVic :=
  if off = vicOffVecRd ∨ off = vicOffVecPend then vic.vicPickIrq
  else if off = vicOffStatus0 then (vic.lines.act0, vic)
  else if off = vicOffStatus0 + 4 then (vic.lines.act1, vic)
  else if off = vicOffEnset0 then (vic.lines.en0, vic)
  else if off = vicOffEnset0 + 4 then (vic.lines.en1, vic)
  else (0, vic)

/-- The delivery in `on_code_probe`: the line picked is only logged. -/
def onCodeProbe (vic : LinuxVic) (cpsr : Word) : LinuxVic :=
  if vic.lines.delivers vic.irqInService cpsr then
    ({ vic with irqInService := true, irqDelivered := vic.irqDelivered + 1 } : LinuxVic).vicPickIrq.2
  else vic

/-- The guest and the devices have left these lines. -/
def settled (vic : LinuxVic) (lines : VicLines) : LinuxVic := { vic with lines }

end LinuxVic

/-- What a round of service finds: the lines, the in-service flag and CPSR when
`on_code_probe` runs, and the lines at the two reads of the entry macro. -/
structure Round where
  probed : VicLines
  inService : Bool
  cpsr : Word
  atVecRd : VicLines
  atVecPend : VicLines

namespace Round

def atProbe (round : Round) (vic : LinuxVic) : LinuxVic :=
  { vic.settled round.probed with irqInService := round.inService }

def delivered (round : Round) : Bool := round.probed.delivers round.inService round.cpsr

/-- The value the macro reads from VEC_PEND. -/
def play (round : Round) (vic : LinuxVic) : Word × LinuxVic :=
  let vic := (round.atProbe vic).onCodeProbe round.cpsr
  let vic := ((vic.settled round.atVecRd).onVicRead vicOffVecRd).2
  (vic.settled round.atVecPend).onVicRead vicOffVecPend

/-- The values of VEC_PEND over some rounds. -/
def vecPends (vic : LinuxVic) : List Round → List Word
  | [] => []
  | round :: rounds => (round.play vic).1 :: vecPends (round.play vic).2 rounds

def after (vic : LinuxVic) (rounds : List Round) : LinuxVic :=
  rounds.foldl (fun vic round => (round.play vic).2) vic

end Round

theorem and_bit_ne_zero (word b : Word) (low : b.toNat < 32) :
    word &&& (1#32 <<< b) ≠ 0 ↔ word.getLsbD b.toNat = true := by
  rw [BitVec.shiftLeft_eq', ← BitVec.twoPow_eq, BitVec.and_twoPow]
  cases word.getLsbD b.toNat with
  | false => simp
  | true =>
    simp only [if_true, iff_true]
    intro zero
    have bit := congrArg (BitVec.getLsbD · b.toNat) zero
    simp [low] at bit

theorem and_63 (word : Word) : word &&& 63 = BitVec.ofNat 32 (word.toNat % 64) := by
  apply BitVec.eq_of_toNat_eq
  rw [BitVec.toNat_and, BitVec.toNat_ofNat]
  have mask : word.toNat &&& (63 : Word).toNat = word.toNat % 64 := Nat.and_two_pow_sub_one_eq_mod _ 6
  rw [mask, Nat.mod_eq_of_lt (b := 2 ^ 32) (by omega)]

namespace VicLines

theorem isActive_ofNat (lines : VicLines) {b : Nat} (below : b < 64) :
    lines.isActive (BitVec.ofNat 32 b) = lines.asserted b := by
  have bit : (BitVec.ofNat 32 b &&& 31).toNat = b % 32 := by
    rw [BitVec.toNat_and, BitVec.toNat_ofNat, Nat.mod_eq_of_lt (by omega)]
    exact Nat.and_two_pow_sub_one_eq_mod b 5
  have low : (BitVec.ofNat 32 b < 32) ↔ b < 32 := by
    rw [BitVec.lt_def, BitVec.toNat_ofNat, Nat.mod_eq_of_lt (by omega)]
    rfl
  rw [isActive, Bool.eq_iff_iff, decide_eq_true_eq, and_bit_ne_zero _ _ (by omega), bit, asserted]
  by_cases first : b < 32
  · rw [if_pos (low.mpr first), if_pos first, Nat.mod_eq_of_lt first, act0, BitVec.getLsbD_and]
  · rw [if_neg (mt low.mp first), if_neg first, show b % 32 = b - 32 by omega, act1, BitVec.getLsbD_and]

/-- No line is asserted exactly if both words are zero. -/
theorem act_eq_zero_iff (lines : VicLines) :
    (lines.act0 = 0 ∧ lines.act1 = 0) ↔ ∀ b < 64, lines.asserted b = false := by
  constructor
  · rintro ⟨zero0, zero1⟩ b _
    rw [act0] at zero0
    rw [act1] at zero1
    rw [asserted, ← BitVec.getLsbD_and, ← BitVec.getLsbD_and, zero0, zero1]
    simp
  · intro none
    constructor
    · refine BitVec.eq_of_getLsbD_eq fun b below => ?_
      have clear := none b (by omega)
      rw [asserted, if_pos below, ← BitVec.getLsbD_and] at clear
      rw [act0, clear]
      exact BitVec.getLsbD_zero.symm
    · refine BitVec.eq_of_getLsbD_eq fun b below => ?_
      have clear := none (b + 32) (by omega)
      rw [asserted, if_neg (by omega), ← BitVec.getLsbD_and, Nat.add_sub_cancel] at clear
      rw [act1, clear]
      exact BitVec.getLsbD_zero.symm

theorem mem_assertedLines {lines : VicLines} {b : Nat} :
    b ∈ lines.assertedLines ↔ b < 64 ∧ lines.asserted b = true := by
  rw [assertedLines, List.mem_filter, List.mem_range]

theorem assertedLines_ascending (lines : VicLines) : lines.assertedLines.Pairwise (· < ·) :=
  List.pairwise_lt_range.filter _

/-- The asserted lines in cyclic order, the one after a point first. -/
def roundFrom (lines : VicLines) (point : Nat) : List Nat := cyclicFrom lines.assertedLines point

end VicLines

namespace LinuxVic

/-- The line before the cursor, where the round of the next scan starts. -/
def last (vic : LinuxVic) : Nat := (vic.cursor.toNat % 64 + 63) % 64

@[simp] theorem last_settled (vic : LinuxVic) (lines : VicLines) : (vic.settled lines).last = vic.last :=
  rfl

/-- All lines in the order of the scan. -/
def order (vic : LinuxVic) : List Nat := (List.range 64).map fun i => (vic.cursor.toNat + i) % 64

theorem scan_eq (vic : LinuxVic) :
    ((List.range 64).map fun i => (vic.cursor + BitVec.ofNat 32 i) &&& 63) =
      vic.order.map (BitVec.ofNat 32) := by
  rw [order, List.map_map]
  refine List.map_congr_left fun i listed => ?_
  have below := List.mem_range.mp listed
  rw [and_63, BitVec.toNat_add, BitVec.toNat_ofNat, Nat.mod_eq_of_lt (a := i) (by omega),
    Function.comp_apply]
  congr 1
  omega

theorem filter_order (vic : LinuxVic) :
    vic.order.filter vic.lines.asserted = vic.lines.roundFrom vic.last := by
  have turned := cyclicFrom_range (Nat.mod_lt vic.cursor.toNat (by decide : 64 > 0))
  rw [VicLines.roundFrom, VicLines.assertedLines, cyclicFrom_filter, last]
  rw [show 64 - 1 = 63 from rfl] at turned
  rw [turned, order]
  simp only [Nat.mod_add_mod]

theorem find?_scan (vic : LinuxVic) :
    (vic.order.map (BitVec.ofNat 32)).find? vic.lines.isActive =
      (vic.lines.roundFrom vic.last).head?.map (BitVec.ofNat 32) := by
  rw [List.find?_map, ← List.head?_filter, ← filter_order]
  congr 2
  refine List.filter_congr fun b listed => ?_
  obtain ⟨i, _, rfl⟩ := List.mem_map.mp listed
  exact vic.lines.isActive_ofNat (Nat.mod_lt _ (by decide))

/-- The pick is the first asserted line of the round, and the cursor goes past it. -/
theorem vicPickIrq_eq (vic : LinuxVic) :
    vic.vicPickIrq = match (vic.lines.roundFrom vic.last).head? with
      | some b => (BitVec.ofNat 32 b, { vic with cursor := BitVec.ofNat 32 ((b + 1) % 64) })
      | none => (vicNoPend, vic) := by
  unfold vicPickIrq
  split
  · rename_i silent
    have empty : vic.lines.roundFrom vic.last = [] := by
      rw [List.eq_nil_iff_forall_not_mem]
      intro b member
      obtain ⟨below, asserted⟩ := VicLines.mem_assertedLines.mp (mem_cyclicFrom.mp member)
      rw [(vic.lines.act_eq_zero_iff.mp silent) b below] at asserted
      cases asserted
    rw [empty]
    rfl
  · simp only [scan_eq, find?_scan]
    cases (vic.lines.roundFrom vic.last).head? with
    | none => rfl
    | some b =>
      have past : (BitVec.ofNat 32 b + 1 : Word).toNat % 64 = (b + 1) % 64 := by
        rw [BitVec.toNat_add, BitVec.toNat_ofNat]
        change (b % 2 ^ 32 + 1) % 2 ^ 32 % 64 = (b + 1) % 64
        omega
      simp only [Option.map_some, and_63, past]

/-- The first asserted line in cyclic order from the cursor, or none. -/
def PicksFirst (vic : LinuxVic) : Prop :=
  (vic.vicPickIrq.1 = vicNoPend ↔ ∀ b < 64, vic.lines.asserted b = false) ∧
    ∀ i < 64, vic.lines.asserted ((vic.cursor.toNat + i) % 64) = true →
      (∀ j < i, vic.lines.asserted ((vic.cursor.toNat + j) % 64) = false) →
        vic.vicPickIrq.1 = BitVec.ofNat 32 ((vic.cursor.toNat + i) % 64)

theorem head?_round (vic : LinuxVic) {i : Nat} (below : i < 64)
    (asserted : vic.lines.asserted ((vic.cursor.toNat + i) % 64) = true)
    (first : ∀ j < i, vic.lines.asserted ((vic.cursor.toNat + j) % 64) = false) :
    (vic.lines.roundFrom vic.last).head? = some ((vic.cursor.toNat + i) % 64) := by
  rw [← filter_order, List.head?_filter, order, List.find?_map, Option.map_eq_some_iff]
  refine ⟨i, List.find?_range_eq_some.mpr ⟨asserted, List.mem_range.mpr below, ?_⟩, rfl⟩
  intro j early
  simp [first j early]

theorem vicPickIrq_none {vic : LinuxVic} (none : vic.lines.roundFrom vic.last = []) :
    vic.vicPickIrq = (vicNoPend, vic) := by
  rw [vicPickIrq_eq, none]
  rfl

theorem vicPickIrq_some {vic : LinuxVic} {b : Nat}
    (first : (vic.lines.roundFrom vic.last).head? = some b) :
    vic.vicPickIrq = (BitVec.ofNat 32 b, { vic with cursor := BitVec.ofNat 32 ((b + 1) % 64) }) := by
  rw [vicPickIrq_eq, first]

theorem ofNat_ne_noPend {b : Nat} (below : b < 64) : BitVec.ofNat 32 b ≠ vicNoPend := by
  intro same
  have value := congrArg BitVec.toNat same
  rw [BitVec.toNat_ofNat, Nat.mod_eq_of_lt (by omega)] at value
  rw [value] at below
  exact absurd below (by decide)

theorem picksFirst (vic : LinuxVic) : vic.PicksFirst := by
  refine ⟨⟨fun silent b below => ?_, fun none => ?_⟩, fun i below asserted first => ?_⟩
  · cases head : (vic.lines.roundFrom vic.last).head? with
    | none =>
      by_contra high
      have member : b ∈ vic.lines.roundFrom vic.last :=
        mem_cyclicFrom.mpr (VicLines.mem_assertedLines.mpr ⟨below, by simpa using high⟩)
      rw [List.head?_eq_none_iff.mp head] at member
      exact List.not_mem_nil member
    | some found =>
      have member := VicLines.mem_assertedLines.mp (mem_cyclicFrom.mp (List.mem_of_head? head))
      rw [vicPickIrq_some head] at silent
      exact absurd silent (ofNat_ne_noPend member.1)
  · have empty : vic.lines.roundFrom vic.last = [] := by
      rw [List.eq_nil_iff_forall_not_mem]
      intro b member
      obtain ⟨below, asserted⟩ := VicLines.mem_assertedLines.mp (mem_cyclicFrom.mp member)
      rw [none b below] at asserted
      cases asserted
    rw [vicPickIrq_none empty]
  · rw [vicPickIrq_some (vic.head?_round below asserted first)]

end LinuxVic

namespace VicLines

/-- The line after a point in the round. -/
def next (lines : VicLines) (point : Nat) : Nat := (lines.roundFrom point).head?.getD 0

theorem head?_roundFrom {lines : VicLines} (some : lines.assertedLines ≠ []) (point : Nat) :
    (lines.roundFrom point).head? = Option.some (lines.next point) := by
  have nonempty : lines.roundFrom point ≠ [] := by
    intro empty
    have length := length_cyclicFrom lines.assertedLines point
    rw [show cyclicFrom lines.assertedLines point = [] from empty] at length
    exact some (List.length_eq_zero_iff.mp length.symm)
  rw [next, List.head?_eq_some_head nonempty, Option.getD_some]

theorem next_lt {lines : VicLines} (some : lines.assertedLines ≠ []) (point : Nat) :
    lines.next point < 64 :=
  (mem_assertedLines.mp (mem_cyclicFrom.mp (List.mem_of_head? (head?_roundFrom some point)))).1

end VicLines

/-- A pick among the same asserted lines goes on to the next of them. -/
theorem pick_next (vic : LinuxVic) {lines : VicLines} (some : lines.assertedLines ≠ [])
    (same : vic.lines.assertedLines = lines.assertedLines) :
    vic.vicPickIrq.1 = BitVec.ofNat 32 (lines.next vic.last) ∧
      vic.vicPickIrq.2.last = lines.next vic.last := by
  have head : (vic.lines.roundFrom vic.last).head? = Option.some (lines.next vic.last) := by
    rw [VicLines.roundFrom, same]
    exact VicLines.head?_roundFrom some vic.last
  have below := VicLines.next_lt some vic.last
  rw [LinuxVic.vicPickIrq_some head]
  refine ⟨rfl, ?_⟩
  generalize lines.next vic.last = b at below ⊢
  change ((BitVec.ofNat 32 ((b + 1) % 64)).toNat % 64 + 63) % 64 = b
  rw [BitVec.toNat_ofNat]
  omega

namespace Round

/-- At every pick the same lines are asserted. -/
structure Sees (round : Round) (lines : VicLines) : Prop where
  probed : round.probed.assertedLines = lines.assertedLines
  atVecRd : round.atVecRd.assertedLines = lines.assertedLines
  atVecPend : round.atVecPend.assertedLines = lines.assertedLines

/-- How far a round moves the cursor. -/
def picks (delivered : Bool) : Nat := if delivered then 3 else 2

/-- Delivery goes one line on or not at all. -/
theorem probe_last {round : Round} {lines : VicLines} (some : lines.assertedLines ≠ [])
    (same : round.probed.assertedLines = lines.assertedLines) (vic : LinuxVic) :
    ((round.atProbe vic).onCodeProbe round.cpsr).last =
      lines.next^[if round.delivered then 1 else 0] vic.last := by
  have condition : (round.atProbe vic).lines.delivers (round.atProbe vic).irqInService round.cpsr =
      round.delivered := rfl
  rw [LinuxVic.onCodeProbe, condition]
  cases round.delivered with
  | true =>
    exact (pick_next { round.atProbe vic with irqInService := true, irqDelivered := _ } some same).2
  | false => rfl

/-- A round reads the line its last pick comes to. -/
theorem play_eq {round : Round} {lines : VicLines} (some : lines.assertedLines ≠ [])
    (sees : round.Sees lines) (vic : LinuxVic) :
    (round.play vic).1 = BitVec.ofNat 32 (lines.next^[picks round.delivered] vic.last) ∧
      (round.play vic).2.last = lines.next^[picks round.delivered] vic.last := by
  have probed := probe_last some sees.probed vic
  unfold play
  generalize (round.atProbe vic).onCodeProbe round.cpsr = after at probed ⊢
  have read := (pick_next (after.settled round.atVecRd) some sees.atVecRd).2
  have pend := pick_next ((after.settled round.atVecRd).vicPickIrq.2.settled round.atVecPend)
    some sees.atVecPend
  have turns : lines.next (lines.next after.last) = lines.next^[picks round.delivered] vic.last := by
    rw [probed]
    cases round.delivered with
    | true => rfl
    | false => rfl
  rw [LinuxVic.last_settled, read, LinuxVic.last_settled, turns] at pend
  exact pend

theorem vecPends_eq {lines : VicLines} (some : lines.assertedLines ≠ []) (delivered : Bool)
    {rounds : List Round}
    (all : ∀ round ∈ rounds, round.delivered = delivered ∧ round.Sees lines) (vic : LinuxVic) :
    vecPends vic rounds = (List.range rounds.length).map fun turn =>
      BitVec.ofNat 32 (lines.next^[picks delivered * (turn + 1)] vic.last) := by
  induction rounds generalizing vic with
  | nil => rfl
  | cons round rounds ih =>
    obtain ⟨same, sees⟩ := all round List.mem_cons_self
    obtain ⟨value, last⟩ := play_eq some sees vic
    rw [same] at value last
    rw [vecPends, ih (fun other member => all other (List.mem_cons_of_mem _ member)), value, last,
      List.length_cons, List.range_succ_eq_map, List.map_cons, List.map_map, Nat.zero_add, Nat.mul_one]
    congr 1
    refine List.map_congr_left fun turn _ => ?_
    rw [Function.comp_apply, ← Function.iterate_add_apply, Nat.mul_succ _ (turn + 1)]

end Round

/-- Over as many rounds in a row as there are lines in the set, all of one kind, each of the lines is
read from VEC_PEND, whatever came before. -/
def Served (lines : VicLines) (served : Finset Nat) (delivered : Bool) : Prop :=
  ∀ (vic : LinuxVic) (earlier window : List Round), window.length = served.card →
    (∀ round ∈ window, round.delivered = delivered ∧ round.Sees lines) →
      ∀ line ∈ served, BitVec.ofNat 32 line ∈ Round.vecPends (Round.after vic earlier) window

/-- Where the round of a look stands when the first one starts after a point. -/
theorem look_getElem {lines : VicLines} (some : lines.assertedLines ≠ []) {stride : Nat}
    (positive : 0 < stride) (look point : Nat) :
    (lines.roundFrom point)[(stride * look + (stride - 1)) % lines.assertedLines.length]? =
      Option.some (lines.next^[stride * (look + 1)] point) := by
  have met := iterate_getElem lines.assertedLines_ascending (VicLines.head?_roundFrom some)
    (stride * look + (stride - 1)) point
  rwa [Nat.add_assoc, Nat.sub_add_cancel positive, ← Nat.mul_succ] at met

theorem ofNat_inj {b other : Nat} (below : b < 64) (also : other < 64)
    (same : BitVec.ofNat 32 b = BitVec.ofNat 32 other) : b = other := by
  have value := congrArg BitVec.toNat same
  rwa [BitVec.toNat_ofNat, BitVec.toNat_ofNat, Nat.mod_eq_of_lt (by omega),
    Nat.mod_eq_of_lt (by omega)] at value

theorem picks_pos (delivered : Bool) : 0 < Round.picks delivered := by
  cases delivered with
  | true => decide
  | false => decide

/-- A round of the kind that finds the lines as they are. -/
def steady (lines : VicLines) (delivered : Bool) : Round where
  probed := lines
  inService := !delivered
  cpsr := 0
  atVecRd := lines
  atVecPend := lines

theorem steady_delivered {lines : VicLines} (some : lines.assertedLines ≠ []) (delivered : Bool) :
    (steady lines delivered).delivered = delivered := by
  have awake : (lines.act0 ≠ 0 || lines.act1 ≠ 0) = true := by
    by_contra asleep
    have zero : lines.act0 = 0 ∧ lines.act1 = 0 := by simpa using asleep
    obtain ⟨b, member⟩ := List.exists_mem_of_ne_nil _ some
    obtain ⟨below, asserted⟩ := VicLines.mem_assertedLines.mp member
    rw [lines.act_eq_zero_iff.mp zero b below] at asserted
    cases asserted
  rw [Round.delivered, steady, VicLines.delivers, awake]
  simp

/-- Rounds that read every line wherever the cursor stands look at every place of the round. -/
theorem meets_of_served {lines : VicLines} {served : Finset Nat} {delivered : Bool}
    (stay : ∀ line ∈ served, line ∈ lines.assertedLines) {line : Nat} (member : line ∈ served)
    (all : Served lines served delivered) :
    ∀ residue < lines.assertedLines.length, ∃ look < served.card,
      (Round.picks delivered * look + (Round.picks delivered - 1)) % lines.assertedLines.length =
        residue := by
  intro residue below
  have some : lines.assertedLines ≠ [] := List.ne_nil_of_mem (stay line member)
  have known := (VicLines.mem_assertedLines.mp (stay line member)).1
  obtain ⟨turns, placed⟩ := exists_round lines.assertedLines_ascending
    (VicLines.head?_roundFrom some) (stay line member) below
  have bound : lines.next^[turns] line < 64 := by
    cases turns with
    | zero => exact known
    | succ turns =>
      rw [Function.iterate_succ_apply']
      exact VicLines.next_lt some _
  generalize lines.next^[turns] line = point at placed bound
  obtain ⟨vic, rfl⟩ : ∃ vic : LinuxVic, vic.last = point := by
    refine ⟨⟨lines, BitVec.ofNat 32 (point + 1), false, 0⟩, ?_⟩
    simp only [LinuxVic.last, BitVec.toNat_ofNat]
    omega
  have read := all vic [] (List.replicate served.card (steady lines delivered)) List.length_replicate
    (fun round listed => by
      rw [List.eq_of_mem_replicate listed]
      exact ⟨steady_delivered some delivered, rfl, rfl, rfl⟩) line member
  rw [Round.after, List.foldl_nil, Round.vecPends_eq some delivered
    (fun round listed => by
      rw [List.eq_of_mem_replicate listed]
      exact ⟨steady_delivered some delivered, rfl, rfl, rfl⟩), List.length_replicate] at read
  obtain ⟨look, early, value⟩ := List.mem_map.mp read
  have met := look_getElem some (picks_pos delivered) look vic.last
  have reached : lines.next^[Round.picks delivered * (look + 1)] vic.last < 64 :=
    (VicLines.mem_assertedLines.mp (mem_cyclicFrom.mp (List.mem_of_getElem? met))).1
  rw [ofNat_inj reached known value, ← placed] at met
  refine ⟨look, List.mem_range.mp early, ?_⟩
  have distinct : (lines.roundFrom vic.last).Nodup :=
    (cyclicFrom_perm _ _).nodup_iff.mpr (lines.assertedLines_ascending.imp fun less => less.ne)
  have inside : (Round.picks delivered * look + (Round.picks delivered - 1)) %
      lines.assertedLines.length < (lines.roundFrom vic.last).length := by
    rw [VicLines.roundFrom, length_cyclicFrom]
    exact Nat.mod_lt _ (List.length_pos_of_ne_nil some)
  exact (List.getElem?_inj inside distinct).mp met

theorem served_iff {lines : VicLines} {served : Finset Nat} (nonempty : served.Nonempty)
    (stay : ∀ line ∈ served, line ∈ lines.assertedLines) (delivered : Bool) :
    Served lines served delivered ↔
      served = lines.assertedLines.toFinset ∧ Nat.Coprime (Round.picks delivered) served.card := by
  have distinct : lines.assertedLines.Nodup := lines.assertedLines_ascending.imp fun less => less.ne
  have inside : served ⊆ lines.assertedLines.toFinset := fun line member =>
    List.mem_toFinset.mpr (stay line member)
  have few : served.card ≤ lines.assertedLines.length := by
    rw [← List.toFinset_card_of_nodup distinct]
    exact Finset.card_le_card inside
  constructor
  · intro all
    obtain ⟨line, member⟩ := nonempty
    obtain ⟨full, coprime⟩ := (strides_meet_iff _ (Finset.card_pos.mpr ⟨line, member⟩) few).mp
      (meets_of_served stay member all)
    refine ⟨Finset.eq_of_subset_of_card_le inside ?_, full ▸ coprime⟩
    rw [List.toFinset_card_of_nodup distinct, full]
  · rintro ⟨whole, coprime⟩ vic earlier window length kind line member
    have some : lines.assertedLines ≠ [] := List.ne_nil_of_mem (stay line member)
    have full : served.card = lines.assertedLines.length := by
      rw [whole, List.toFinset_card_of_nodup distinct]
    generalize Round.after vic earlier = vic
    have placed : line ∈ lines.roundFrom vic.last := mem_cyclicFrom.mpr (stay line member)
    obtain ⟨residue, below, found⟩ := List.getElem_of_mem placed
    rw [VicLines.roundFrom, length_cyclicFrom] at below
    obtain ⟨look, early, met⟩ := (strides_meet_iff (Round.picks delivered - 1)
      (Finset.card_pos.mpr nonempty) few).mpr ⟨full, full ▸ coprime⟩ residue below
    have value := look_getElem some (picks_pos delivered) look vic.last
    rw [met, List.getElem?_eq_getElem (by rw [VicLines.roundFrom, length_cyclicFrom]; exact below), found,
      Option.some.injEq] at value
    rw [Round.vecPends_eq some delivered kind, List.mem_map]
    exact ⟨look, List.mem_range.mpr (length ▸ early), by rw [← value]⟩

/-- Every pick takes the first asserted line from the cursor. Yet a set of lines that stay asserted is
served within as many rounds as it has lines, wherever the cursor stands, exactly if no other line
is asserted and their number is not divisible by the picks of a round: three with a delivery, two
without. -/
theorem vic_serves_iff (lines : VicLines) (served : Finset Nat) (nonempty : served.Nonempty)
    (stay : ∀ line ∈ served, line ∈ lines.assertedLines) :
    (∀ vic : LinuxVic, vic.PicksFirst) ∧
      (Served lines served true ↔ served = lines.assertedLines.toFinset ∧ ¬ 3 ∣ served.card) ∧
      (Served lines served false ↔ served = lines.assertedLines.toFinset ∧ ¬ 2 ∣ served.card) := by
  refine ⟨LinuxVic.picksFirst, ?_, ?_⟩
  · rw [served_iff nonempty stay, show Round.picks true = 3 from rfl,
      Nat.Prime.coprime_iff_not_dvd Nat.prime_three]
  · rw [served_iff nonempty stay, show Round.picks false = 2 from rfl,
      Nat.Prime.coprime_iff_not_dvd Nat.prime_two]

/-- The timer (7) and the USB controller (47), pending and enabled. -/
def timerAndUsb : VicLines := ⟨0x80, 0x8000, 0x80, 0x8000⟩

theorem vic_serves_iff_timer :
    (∀ line ∈ ({7} : Finset Nat), line ∈ (VicLines.mk 0x80 0 0x80 0).assertedLines) ∧
      Served ⟨0x80, 0, 0x80, 0⟩ {7} true := by
  have stay : ∀ line ∈ ({7} : Finset Nat), line ∈ (VicLines.mk 0x80 0 0x80 0).assertedLines := by
    decide +kernel
  exact ⟨stay, (vic_serves_iff ⟨0x80, 0, 0x80, 0⟩ {7} ⟨7, by decide⟩ stay).2.1.mpr
    ⟨by decide +kernel, by decide⟩⟩

/-- Without deliveries the two reads of a round go through both lines, and VEC_PEND reads the USB
controller every time. -/
theorem timer_starves :
    (∀ line ∈ ({7, 47} : Finset Nat), line ∈ timerAndUsb.assertedLines) ∧
      ¬ Served timerAndUsb {7, 47} false := by
  refine ⟨by decide +kernel, fun served => ?_⟩
  have read := served ⟨timerAndUsb, 0, true, 0⟩ []
    [⟨timerAndUsb, true, 0, timerAndUsb, timerAndUsb⟩, ⟨timerAndUsb, true, 0, timerAndUsb, timerAndUsb⟩]
    (by decide) (by
      intro round listed
      have same : round = ⟨timerAndUsb, true, 0, timerAndUsb, timerAndUsb⟩ := by simpa using listed
      subst same
      exact ⟨by decide +kernel, rfl, rfl, rfl⟩) 7 (by decide)
  revert read
  decide +kernel

end ZeeboLle.Linux
