import ZeeboLle.Paging.Bytes
import ZeeboLle.Paging.KeyedList
import ZeeboLle.Scheduling.Runs
import ZeeboLle.Unicorn.Memory

/-! The scanout of a display list in guest memory. An entry paints its rectangle with coordinates
that wrap at 32 bits, so one that runs past the end of them comes back at the near edge. -/
namespace ZeeboLle.Device.Mddi

open Paging Scheduling Unicorn

structure MddiScanoutSink where
  px : Fin (480 * 640) → BitVec 16
  regionsDrawn : Word

namespace MddiScanoutSink

def Visible (x y : Word) : Prop := x.toNat < 640 ∧ y.toNat < 480

instance (x y : Word) : Decidable (Visible x y) := inferInstanceAs (Decidable (_ ∧ _))

def place (x y : Word) (visible : Visible x y) : Fin (480 * 640) :=
  ⟨y.toNat * 640 + x.toNat, by
    obtain ⟨left, top⟩ := visible
    omega⟩

def pxAt (px : Fin (480 * 640) → BitVec 16) (x y : Word) : BitVec 16 :=
  if visible : Visible x y then px (place x y visible) else 0

def «at» (sink : MddiScanoutSink) (x y : Word) : BitVec 16 := pxAt sink.px x y

/-- One pixel of a copy; those off the surface are clipped. -/
def paint (px : Fin (480 * 640) → BitVec 16) (x y : Word) (value : BitVec 16) :
    Fin (480 * 640) → BitVec 16 :=
  if visible : Visible x y then Function.update px (place x y visible) value else px

/-- The inner loop of `blit`. -/
def blitRow (x0 y0 w : Word) (src : Word → BitVec 16) (px : Fin (480 * 640) → BitVec 16) (j : Nat) :
    Fin (480 * 640) → BitVec 16 :=
  (List.range w.toNat).foldl (fun px i =>
    paint px (x0 + BitVec.ofNat 32 i) (y0 + BitVec.ofNat 32 j)
      (src (BitVec.ofNat 32 j * w + BitVec.ofNat 32 i))) px

def blit (sink : MddiScanoutSink) (x0 y0 w h : Word) (src : Word → BitVec 16) : MddiScanoutSink where
  px := (List.range h.toNat).foldl (blitRow x0 y0 w src) sink.px
  regionsDrawn := sink.regionsDrawn + 1

end MddiScanoutSink

def readWord (memory : Word → Byte) (a : Word) : Word :=
  memory (a + 3) ++ memory (a + 2) ++ memory (a + 1) ++ memory a

def readHalf (memory : Word → Byte) (a : Word) : BitVec 16 := memory (a + 1) ++ memory a

/-- The pixel of a number behind a base, out of the word that holds it. -/
def fetch (memory : Word → Byte) (base idx : Word) : BitVec 16 :=
  let a := base + idx * 2
  let word := readWord memory (a &&& ~~~3#32)
  if a &&& 2 ≠ 0 then (word >>> 16).setWidth 16 else (word &&& 0xffff).setWidth 16

def mddiVideoStream : Word := 16

def mddiFmtRgb565 : Word := 0x5565

structure MddiLlentry where
  type : Word
  format : Word
  x : Word
  y : Word
  w : Word
  h : Word
  dataPtr : Word
  next : Word
deriving DecidableEq

namespace MddiLlentry

/-- The entry at an address. -/
def read (memory : Word → Byte) (a : Word) : MddiLlentry where
  type := readWord memory a
  format := readWord memory (a + 4)
  x := readWord memory (a + 8)
  y := readWord memory (a + 12)
  w := readWord memory (a + 16)
  h := readWord memory (a + 20)
  dataPtr := readWord memory (a + 24)
  next := readWord memory (a + 28)

/-- The entry reaches the surface. -/
def Streams (entry : MddiLlentry) : Prop :=
  entry.type = mddiVideoStream ∧ entry.format = mddiFmtRgb565 ∧ entry.dataPtr ≠ 0

instance (entry : MddiLlentry) : Decidable entry.Streams := inferInstanceAs (Decidable (_ ∧ _))

end MddiLlentry

/-- The rounds of the walk over the list, as many as the guard allows. -/
def scanoutFrom (memory : Word → Byte) : Nat → Word → MddiScanoutSink → MddiScanoutSink
  | 0, _, sink => sink
  | guard + 1, a, sink =>
    if a = 0 then sink
    else
      let entry := MddiLlentry.read memory a
      scanoutFrom memory guard entry.next
        (if entry.Streams then sink.blit entry.x entry.y entry.w entry.h (fetch memory entry.dataPtr)
        else sink)

/-- The engine's registers, and the surface if one is attached. -/
structure UnifiedMddi where
  status : Word := 0x21
  priPtr : Word := 0
  frameCount : Word := 0
  regs : Word → Word := fun _ => 0
  sink : Option MddiScanoutSink := none

namespace UnifiedMddi

/-- The walk from a head; a null head leaves the surface alone. -/
def scanout (memory : Word → Byte) (mddi : UnifiedMddi) (head : Word) : UnifiedMddi :=
  if head = 0 then mddi else { mddi with sink := mddi.sink.map (scanoutFrom memory 4096 head) }

def write (memory : Word → Byte) (mddi : UnifiedMddi) (off val : Word) : UnifiedMddi :=
  let mddi := { mddi with regs := Function.update mddi.regs off val }
  if off = 0 then
    if val &&& 0xff00 = 0x200 then { mddi with status := mddi.status ||| 1 }
    else if val &&& 0xff00 = 0x400 then { mddi with status := 0x21 }
    else mddi
  else if off = 0x8 then
    scanout memory { mddi with
      priPtr := val
      frameCount := mddi.frameCount + 1
      status := mddi.status ||| 0x20 } val
  else mddi

end UnifiedMddi

/-- The entries from a head to the null pointer. -/
def Linked (memory : Word → Byte) : Word → List MddiLlentry → Prop
  | head, [] => head = 0
  | head, entry :: rest =>
    head ≠ 0 ∧ entry = MddiLlentry.read memory head ∧ Linked memory entry.next rest

namespace MddiLlentry

/-- The pixel lies in the rectangle, in unbounded numbers. -/
def Contains (entry : MddiLlentry) (x y : Word) : Prop :=
  entry.x.toNat ≤ x.toNat ∧ x.toNat < entry.x.toNat + entry.w.toNat ∧
    entry.y.toNat ≤ y.toNat ∧ y.toNat < entry.y.toNat + entry.h.toNat

instance (entry : MddiLlentry) (x y : Word) : Decidable (entry.Contains x y) :=
  inferInstanceAs (Decidable (_ ∧ _))

/-- Where the pixel's value lies, row after row behind the data pointer. -/
def sourceOf (entry : MddiLlentry) (x y : Word) : Word :=
  entry.dataPtr + BitVec.ofNat 32
    (2 * ((y.toNat - entry.y.toNat) * entry.w.toNat + (x.toNat - entry.x.toNat)))

/-- The pixel is met from the corner on, in numbers that wrap. -/
def Meets (entry : MddiLlentry) (x y : Word) : Prop := x - entry.x < entry.w ∧ y - entry.y < entry.h

instance (entry : MddiLlentry) (x y : Word) : Decidable (entry.Meets x y) :=
  inferInstanceAs (Decidable (_ ∧ _))

def wrappedSource (entry : MddiLlentry) (x y : Word) : Word :=
  entry.dataPtr + ((y - entry.y) * entry.w + (x - entry.x)) * 2

end MddiLlentry

/-- The last rectangle that contains the pixel gives its value, or it keeps its own. -/
def described (memory : Word → Byte) (entries : List MddiLlentry) (x y : Word) (old : BitVec 16) :
    BitVec 16 :=
  ((latest (fun entry => entry.Streams ∧ entry.Contains x y) entries).map
    fun entry => readHalf memory (entry.sourceOf x y)).getD old

/-- The surface holds what the list describes. -/
def Paints (memory : Word → Byte) (entries : List MddiLlentry) (before after : MddiScanoutSink) : Prop :=
  ∀ x y, MddiScanoutSink.Visible x y →
    after.at x y = described memory entries x y (before.at x y)

/-- A pixel that an entry meets last by wrapping around gets the value that is described. -/
def WrapsIdle (memory : Word → Byte) (entries : List MddiLlentry) (before : MddiScanoutSink) : Prop :=
  ∀ x y entry, MddiScanoutSink.Visible x y →
    latest (fun entry => entry.Streams ∧ entry.Meets x y) entries = some entry →
    ¬entry.Contains x y →
    readHalf memory (entry.wrappedSource x y) = described memory entries x y (before.at x y)

theorem readWord_eq (memory : Word → Byte) (a : Word) :
    readWord memory a = readHalf memory (a + 2) ++ readHalf memory a := by
  have next : a + 2 + 1 = a + 3 := BitVec.add_assoc a 2 1
  rw [readWord, readHalf, readHalf, next]
  exact @BitVec.append_assoc 16 8 8 (memory (a + 3) ++ memory (a + 2)) (memory (a + 1)) (memory a)

theorem setWidth_low (high low : BitVec 16) : ((high ++ low : Word) &&& 0xffff).setWidth 16 = low := by
  rw [BitVec.setWidth_and, show (0xffff : Word).setWidth 16 = BitVec.allOnes 16 from rfl,
    BitVec.and_allOnes, BitVec.setWidth_append, dif_pos (Nat.le_refl 16), BitVec.setWidth_eq]

theorem setWidth_high (high low : BitVec 16) : ((high ++ low : Word) >>> 16).setWidth 16 = high := by
  rw [BitVec.setWidth_ushiftRight_eq_extractLsb]
  exact BitVec.extractLsb'_append_eq_left

theorem toNat_align (a : Word) : (a &&& ~~~3#32).toNat = a.toNat / 4 * 4 :=
  @toNat_clear_low 32 2 (by decide) a

theorem and_two_eq_zero_iff (a : Word) : a &&& 2 = 0 ↔ a.toNat / 2 % 2 = 0 := by
  have bit : a.getLsbD 1 = decide (a.toNat / 2 % 2 = 1) := Nat.testBit_eq_decide_div_mod_eq
  rw [show (2 : Word) = BitVec.twoPow 32 1 from rfl, BitVec.and_twoPow, bit]
  by_cases odd : a.toNat / 2 % 2 = 1
  · rw [if_pos (decide_eq_true odd)]
    exact iff_of_false (by decide) (by omega)
  · rw [if_neg (by simpa using odd)]
    exact iff_of_true rfl (by omega)

/-- At an even address the pixel is a halfword of the memory. -/
theorem fetch_eq (memory : Word → Byte) {base : Word} (even : base.toNat % 2 = 0) (idx : Word) :
    fetch memory base idx = readHalf memory (base + idx * 2) := by
  have half : (base + idx * 2).toNat % 2 = 0 := by
    rw [BitVec.toNat_add, BitVec.toNat_mul, show (2 : Word).toNat = 2 from rfl]
    omega
  simp only [fetch]
  generalize base + idx * 2 = a at half
  have bound := a.isLt
  by_cases first : a &&& 2 = 0
  · have quarter := (and_two_eq_zero_iff a).mp first
    have aligned : a &&& ~~~3#32 = a := BitVec.eq_of_toNat_eq (by rw [toNat_align]; omega)
    rw [if_neg (not_not_intro first), aligned, readWord_eq, setWidth_low]
  · have quarter := mt (and_two_eq_zero_iff a).mpr first
    have aligned : (a &&& ~~~3#32) + 2 = a := by
      apply BitVec.eq_of_toNat_eq
      rw [BitVec.toNat_add, toNat_align, show (2 : Word).toNat = 2 from rfl]
      omega
    rw [if_pos first, readWord_eq, setWidth_high, aligned]

namespace MddiScanoutSink

theorem pxAt_paint (px : Fin (480 * 640) → BitVec 16) {x y : Word} (visible : Visible x y)
    (column row : Word) (value : BitVec 16) :
    pxAt (paint px column row value) x y = if column = x ∧ row = y then value else pxAt px x y := by
  rw [paint]
  by_cases inside : Visible column row
  · rw [dif_pos inside, pxAt, pxAt, dif_pos visible, dif_pos visible]
    by_cases here : column = x ∧ row = y
    · obtain ⟨rfl, rfl⟩ := here
      rw [if_pos ⟨rfl, rfl⟩, Function.update_self]
    · rw [if_neg here, Function.update_of_ne]
      intro same
      have number := congrArg Fin.val same
      simp only [place] at number
      obtain ⟨left, top⟩ := visible
      obtain ⟨right, bottom⟩ := inside
      exact here ⟨BitVec.eq_of_toNat_eq (by omega), BitVec.eq_of_toNat_eq (by omega)⟩
  · rw [dif_neg inside, if_neg]
    rintro ⟨rfl, rfl⟩
    exact inside visible

/-- The one step of a count that leads from one word to another. -/
theorem add_ofNat_eq_iff {start x : Word} {i : Nat} (below : i < 2 ^ 32) :
    start + BitVec.ofNat 32 i = x ↔ i = (x - start).toNat := by
  constructor
  · rintro rfl
    rw [BitVec.add_comm, BitVec.add_sub_cancel, BitVec.toNat_ofNat, Nat.mod_eq_of_lt below]
  · rintro rfl
    rw [BitVec.ofNat_toNat, BitVec.setWidth_eq, BitVec.add_comm, BitVec.sub_add_cancel]

theorem pxAt_blitRow (x0 y0 w : Word) (src : Word → BitVec 16) (px : Fin (480 * 640) → BitVec 16)
    (j : Nat) {x y : Word} (visible : Visible x y) :
    pxAt (blitRow x0 y0 w src px j) x y =
      if (x - x0).toNat < w.toNat then
        if y0 + BitVec.ofNat 32 j = y then src (BitVec.ofNat 32 j * w + (x - x0)) else pxAt px x y
      else pxAt px x y := by
  have width := w.isLt
  refine foldl_range_read (fun px => pxAt px x y) (x - x0).toNat
    (fun old => if y0 + BitVec.ofNat 32 j = y then src (BitVec.ofNat 32 j * w + (x - x0)) else old)
    (fun i below apart px => ?_) fun px => ?_
  · rw [pxAt_paint px visible, if_neg]
    rintro ⟨here, _⟩
    exact apart ((add_ofNat_eq_iff (by omega)).mp here)
  · have here : x0 + BitVec.ofNat 32 (x - x0).toNat = x := (add_ofNat_eq_iff (BitVec.isLt _)).mpr rfl
    rw [pxAt_paint px visible, here, BitVec.ofNat_toNat, BitVec.setWidth_eq]
    simp only [true_and]

/-- A copy reaches a pixel by the wrapped distances to its corner. -/
theorem at_blit (sink : MddiScanoutSink) (x0 y0 w h : Word) (src : Word → BitVec 16) {x y : Word}
    (visible : Visible x y) :
    (sink.blit x0 y0 w h src).at x y =
      if x - x0 < w ∧ y - y0 < h then src ((y - y0) * w + (x - x0)) else sink.at x y := by
  have height := h.isLt
  have rows : pxAt ((List.range h.toNat).foldl (blitRow x0 y0 w src) sink.px) x y =
      if (y - y0).toNat < h.toNat then
        if (x - x0).toNat < w.toNat then src ((y - y0) * w + (x - x0)) else pxAt sink.px x y
      else pxAt sink.px x y := by
    refine foldl_range_read (fun px => pxAt px x y) (y - y0).toNat
      (fun old => if (x - x0).toNat < w.toNat then src ((y - y0) * w + (x - x0)) else old)
      (fun j below apart px => ?_) fun px => ?_
    · have off : y0 + BitVec.ofNat 32 j ≠ y := mt (add_ofNat_eq_iff (by omega)).mp apart
      rw [pxAt_blitRow x0 y0 w src px j visible, if_neg off, ite_self]
    · have here : y0 + BitVec.ofNat 32 (y - y0).toNat = y := (add_ofNat_eq_iff (BitVec.isLt _)).mpr rfl
      rw [pxAt_blitRow x0 y0 w src px _ visible, if_pos here, BitVec.ofNat_toNat, BitVec.setWidth_eq]
  rw [MddiScanoutSink.at, blit, rows, MddiScanoutSink.at]
  simp only [BitVec.lt_def]
  by_cases inRow : (y - y0).toNat < h.toNat
  · simp only [inRow, if_true, and_true]
  · simp only [inRow, if_false, and_false]

end MddiScanoutSink

variable {memory : Word → Byte} {entries : List MddiLlentry} {head : Word} {x y : Word}
  {before : MddiScanoutSink}

/-- One entry, as a pixel sees it. -/
theorem at_entry (visible : MddiScanoutSink.Visible x y) {entry : MddiLlentry}
    (even : entry.dataPtr.toNat % 2 = 0) (sink : MddiScanoutSink) :
    (if entry.Streams then sink.blit entry.x entry.y entry.w entry.h (fetch memory entry.dataPtr)
      else sink).at x y =
      if entry.Streams ∧ entry.Meets x y then readHalf memory (entry.wrappedSource x y)
      else sink.at x y := by
  by_cases streams : entry.Streams
  · rw [if_pos streams, MddiScanoutSink.at_blit _ _ _ _ _ _ visible, fetch_eq memory even]
    simp only [streams, true_and]
    rfl
  · rw [if_neg streams, if_neg fun both => streams both.1]

/-- After the walk a pixel holds what the last entry that meets it says. -/
theorem at_scanoutFrom (visible : MddiScanoutSink.Visible x y) {guard : Nat}
    (linked : Linked memory head entries) (short : entries.length < guard)
    (even : ∀ entry ∈ entries, entry.dataPtr.toNat % 2 = 0) :
    (scanoutFrom memory guard head before).at x y =
      ((latest (fun entry => entry.Streams ∧ entry.Meets x y) entries).map
        fun entry => readHalf memory (entry.wrappedSource x y)).getD (before.at x y) := by
  induction entries generalizing head guard before with
  | nil =>
    obtain ⟨guard, rfl⟩ := Nat.exists_eq_succ_of_ne_zero (Nat.ne_of_gt short)
    rw [scanoutFrom, if_pos (show head = 0 from linked)]
    rfl
  | cons entry rest ih =>
    obtain ⟨some, rfl, next⟩ := linked
    obtain ⟨guard, rfl⟩ := Nat.exists_eq_succ_of_ne_zero (Nat.ne_of_gt (Nat.zero_lt_of_lt short))
    have own := even (MddiLlentry.read memory head) List.mem_cons_self
    rw [scanoutFrom, if_neg some]
    simp only
    rw [ih next (Nat.lt_of_succ_lt_succ short) fun entry later => even entry (List.mem_cons_of_mem _ later),
      latest_cons, at_entry visible own]
    cases latest (fun entry => decide (entry.Streams ∧ entry.Meets x y)) rest with
    | some later => rfl
    | none =>
      by_cases meets : (MddiLlentry.read memory head).Streams ∧ (MddiLlentry.read memory head).Meets x y
      · rw [if_pos meets, if_pos (decide_eq_true meets)]
        rfl
      · rw [if_neg meets, if_neg (by simpa using meets)]
        rfl

namespace MddiLlentry

variable {entry : MddiLlentry}

theorem Contains.sub_toNat (inside : entry.Contains x y) :
    (x - entry.x).toNat = x.toNat - entry.x.toNat ∧ (y - entry.y).toNat = y.toNat - entry.y.toNat := by
  obtain ⟨left, _, top, _⟩ := inside
  exact ⟨BitVec.toNat_sub_of_le left, BitVec.toNat_sub_of_le top⟩

theorem Contains.meets (inside : entry.Contains x y) : entry.Meets x y := by
  obtain ⟨across, down⟩ := inside.sub_toNat
  obtain ⟨left, right, top, bottom⟩ := inside
  rw [Meets, BitVec.lt_def, BitVec.lt_def, across, down]
  omega

theorem Contains.wrappedSource_eq (inside : entry.Contains x y) :
    entry.wrappedSource x y = entry.sourceOf x y := by
  obtain ⟨across, down⟩ := inside.sub_toNat
  rw [wrappedSource, sourceOf, BitVec.mul_comm _ 2, BitVec.ofNat_mul, BitVec.ofNat_add, BitVec.ofNat_mul,
    ← across, ← down]
  simp only [BitVec.ofNat_toNat, BitVec.setWidth_eq]
  rfl

/-- An entry that ends within the numbers does not wrap. -/
theorem Meets.contains (meets : entry.Meets x y) (across : entry.x.toNat + entry.w.toNat ≤ 2 ^ 32)
    (down : entry.y.toNat + entry.h.toNat ≤ 2 ^ 32) : entry.Contains x y := by
  obtain ⟨column, row⟩ := meets
  have bounds := And.intro x.isLt y.isLt
  rw [BitVec.lt_def, BitVec.toNat_sub] at column row
  unfold Contains
  omega

end MddiLlentry

/-- A pixel holds what the list describes, unless an entry meets it last by wrapping around. -/
theorem at_iff (visible : MddiScanoutSink.Visible x y) {guard : Nat}
    (linked : Linked memory head entries) (short : entries.length < guard)
    (even : ∀ entry ∈ entries, entry.dataPtr.toNat % 2 = 0) :
    (scanoutFrom memory guard head before).at x y = described memory entries x y (before.at x y) ↔
      ∀ entry, latest (fun entry => entry.Streams ∧ entry.Meets x y) entries = some entry →
        ¬entry.Contains x y →
        readHalf memory (entry.wrappedSource x y) = described memory entries x y (before.at x y) := by
  rw [at_scanoutFrom visible linked short even]
  cases found : latest (fun entry => decide (entry.Streams ∧ entry.Meets x y)) entries with
  | none =>
    have none : latest (fun entry => decide (entry.Streams ∧ entry.Contains x y)) entries = none := by
      rw [latest_eq_none_iff] at found ⊢
      intro entry member
      have missed := found entry member
      rw [decide_eq_false_iff_not] at missed ⊢
      exact fun inside => missed ⟨inside.1, inside.2.meets⟩
    rw [described, none]
    simp
  | some entry =>
    obtain ⟨meets, front, back, split, fails⟩ := latest_eq_some_iff.mp found
    rw [decide_eq_true_eq] at meets
    by_cases inside : entry.Contains x y
    · have same :
          latest (fun entry => decide (entry.Streams ∧ entry.Contains x y)) entries = some entry := by
        refine latest_eq_some_iff.mpr ⟨decide_eq_true ⟨meets.1, inside⟩, front, back, split, ?_⟩
        intro later member
        have missed := fails later member
        rw [decide_eq_false_iff_not] at missed ⊢
        exact fun inside => missed ⟨inside.1, inside.2.meets⟩
      rw [described, same, Option.map_some, Option.map_some, Option.getD_some, Option.getD_some,
        inside.wrappedSource_eq]
      refine iff_of_true rfl ?_
      rintro _ ⟨⟩ outside
      exact absurd inside outside
    · rw [Option.map_some, Option.getD_some]
      constructor
      · rintro equal _ ⟨⟩ _
        exact equal
      · intro idle
        exact idle entry rfl inside

theorem wrapsIdle_of_fits (fits : ∀ entry ∈ entries, entry.Streams →
      entry.x.toNat + entry.w.toNat ≤ 2 ^ 32 ∧ entry.y.toNat + entry.h.toNat ≤ 2 ^ 32) :
    WrapsIdle memory entries before := by
  intro x y entry _ found outside
  obtain ⟨member, meets⟩ := latest_passes found
  rw [decide_eq_true_eq] at meets
  obtain ⟨across, down⟩ := fits entry member meets.1
  exact absurd (meets.2.contains across down) outside

/-- Writing the head of a list walks it. -/
theorem sink_write {mddi : UnifiedMddi} (attached : mddi.sink = some before) (head : Word) :
    (mddi.write memory 0x8 head).sink = some (scanoutFrom memory 4096 head before) := by
  rw [UnifiedMddi.write, if_neg (by decide), if_pos rfl, UnifiedMddi.scanout]
  by_cases none : head = 0
  · rw [if_pos none, none]
    exact attached
  · rw [if_neg none, attached]
    rfl

/-- The write of a list's head paints what the list describes exactly if no entry that wraps
around leaves another value. No entry does if all end within 32 bits. -/
theorem write_paints_iff (memory : Word → Byte) (mddi : UnifiedMddi) (before : MddiScanoutSink)
    (head : Word) (entries : List MddiLlentry) (attached : mddi.sink = some before)
    (linked : Linked memory head entries) (short : entries.length < 4096)
    (even : ∀ entry ∈ entries, entry.dataPtr.toNat % 2 = 0) :
    ∃ after, (mddi.write memory 0x8 head).sink = some after ∧
      (Paints memory entries before after ↔ WrapsIdle memory entries before) ∧
      ((∀ entry ∈ entries, entry.Streams →
          entry.x.toNat + entry.w.toNat ≤ 2 ^ 32 ∧ entry.y.toNat + entry.h.toNat ≤ 2 ^ 32) →
        Paints memory entries before after) := by
  refine ⟨_, sink_write attached head, ?_⟩
  have exact : Paints memory entries before (scanoutFrom memory 4096 head before) ↔
      WrapsIdle memory entries before := by
    constructor
    · intro paints x y entry visible
      exact (at_iff visible linked short even).mp (paints x y visible) entry
    · intro idle x y visible
      exact (at_iff visible linked short even).mpr fun entry => idle x y entry visible
  exact ⟨exact, fun fits => exact.mpr (wrapsIdle_of_fits fits)⟩

/-- A memory of some words, zero elsewhere. -/
def ofWords (words : List (Word × Word)) (a : Word) : Byte :=
  (((words.lookup (a &&& ~~~3#32)).getD 0) >>> (8 * (a &&& 3).toNat)).setWidth 8

/-- A list of one entry, one row high, and the data of two pixels. -/
def single (x w : Word) : Word → Byte :=
  ofWords [(0x1000, mddiVideoStream), (0x1004, mddiFmtRgb565), (0x1008, x), (0x1010, w), (0x1014, 1),
    (0x1018, 0x2000), (0x2000, 0xf800f800)]

def singleEntry (x w : Word) : MddiLlentry := ⟨mddiVideoStream, mddiFmtRgb565, x, 0, w, 1, 0x2000, 0⟩

def blank : MddiScanoutSink := ⟨fun _ => 0, 0⟩

theorem write_paints_single :
    ∃ after, (({ sink := some blank } : UnifiedMddi).write (single 1 2) 0x8 0x1000).sink = some after ∧
      Paints (single 1 2) [singleEntry 1 2] blank after := by
  obtain ⟨after, drawn, _, fits⟩ := write_paints_iff (single 1 2) { sink := some blank } blank 0x1000
    [singleEntry 1 2] rfl ⟨by decide, by decide, rfl⟩ (by decide) (by decide)
  exact ⟨after, drawn, fits (by decide)⟩

/-- Two pixels from the last column of all come back at the first of the surface. -/
theorem write_paints_wrapped :
    Linked (single 0xffffffff 2) 0x1000 [singleEntry 0xffffffff 2] ∧
      ∃ after, (({ sink := some blank } : UnifiedMddi).write (single 0xffffffff 2) 0x8 0x1000).sink =
        some after ∧ ¬Paints (single 0xffffffff 2) [singleEntry 0xffffffff 2] blank after := by
  refine ⟨⟨by decide, by decide, rfl⟩, _, sink_write rfl 0x1000, fun paints => ?_⟩
  exact absurd (paints 0 0 (by decide)) (by decide)

end ZeeboLle.Device.Mddi
