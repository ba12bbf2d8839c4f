import Mathlib.Algebra.Order.BigOperators.Group.List
import Mathlib.Tactic.IntervalCases
import ZeeboLle.Paging.Flat
import ZeeboLle.Unicorn.Memory

/-! The text on the guest's screen, read back from the pixels with the kernel's own font. The
console draws every character as a glyph of eight by sixteen pixels; the reader takes the half of
the frame buffer that has more ink, and the order of bits in which more cells match. -/
namespace ZeeboLle.Linux.FbText

open Unicorn Paging

def fbPa : Word := 0x15000000
def fbXres : Nat := 720
def fbYres : Nat := 480
def fontPa : Word := 0x102352b8
def halfBytes : Nat := fbXres * fbYres * 2
def cols : Nat := fbXres / 8
def rows : Nat := fbYres / 16

/-- `uc_mem_read`. -/
def ucMemRead (mapped : Mapping) (ram : FlatMemory) (addr : Word) (count : Nat) : Option (List Byte) :=
  if mapped.backed addr count then some ((FlatMemory.cells addr count).map ram) else none

/-- A pixel, by the place of its first byte. -/
def pixel (fb : List Byte) (off : Nat) : BitVec 16 := fb.getD (off + 1) 0 ++ fb.getD off 0

/-- The pixel of a place on the screen is not black. -/
def lit (fb : List Byte) (x y : Nat) : Bool := pixel fb ((y * fbXres + x) * 2) ≠ 0

/-- The pixels of a half that are not black. -/
def ink (half : List Byte) : Nat :=
  ((List.range (halfBytes / 2)).filter fun i =>
    half.getD (2 * i) 0 ||| half.getD (2 * i + 1) 0 ≠ 0).length

/-- Eight pixels as a byte, in one order of bits or the other. -/
def rowBits (msbLeft : Bool) (lit : Nat → Bool) : Byte :=
  (List.range 8).foldl (fun b x =>
    if lit x then b ||| (if msbLeft then 0x80#8 >>> x else 1#8 <<< x) else b) 0

/-- The pattern of a cell. -/
def pattern (msbLeft : Bool) (fb : List Byte) (r c : Nat) : List Byte :=
  (List.range 16).map fun y => rowBits msbLeft fun x => lit fb (c * 8 + x) (r * 16 + y)

def blankCell (fb : List Byte) (r c : Nat) : Bool :=
  (List.range 16).all fun y => (List.range 8).all fun x => !lit fb (c * 8 + x) (r * 16 + y)

def glyph (font : List Byte) (g : Nat) : List Byte := (font.drop (g * 16)).take 16

/-- The first glyph that has the pattern. -/
def matching (font pat : List Byte) : Option Nat := (List.range 256).find? fun g => pat = glyph font g

/-- Characters that are not printed are written as points. -/
def shownAs (g : Nat) : Byte := if 32 ≤ g ∧ g < 127 then BitVec.ofNat 8 g else 46

/-- What a cell is read as, if it matches. -/
def cellText (msbLeft : Bool) (fb font : List Byte) (r c : Nat) : Option Byte :=
  if blankCell fb r c then none else (matching font (pattern msbLeft fb r c)).map shownAs

/-- The lines, and how many cells matched. -/
def decode (msbLeft : Bool) (fb font : List Byte) : List (List Byte) × Nat :=
  let cells := (List.range rows).map fun r => (List.range cols).map fun c => cellText msbLeft fb font r c
  (cells.map fun line => line.map fun cell => cell.getD 32, (cells.flatten.filter Option.isSome).length)

/-- `fb_decode_text`; where a read fails the lines stay as they were. -/
def fbDecodeText (mapped : Mapping) (ram : FlatMemory) : Option (List (List Byte)) :=
  (ucMemRead mapped ram fbPa (halfBytes * 2)).bind fun buf =>
    let half := if ink (buf.drop halfBytes) > ink (buf.take halfBytes) then 1 else 0
    let fb := (buf.drop (half * halfBytes)).take halfBytes
    (ucMemRead mapped ram fontPa 4096).map fun font =>
      let a := decode true fb font
      let b := decode false fb font
      if b.2 > a.2 then b.1 else a.1

/-- The characters of a screen. -/
abbrev Console := Fin rows → Fin cols → Byte

/-- The point of a glyph that lies so far to the right and so far down. -/
def dot (font : List Byte) (g : Byte) (x y : Nat) : Bool :=
  (font.getD (g.toNat * 16 + y) 0).getLsbD (7 - x)

/-- A half on which the console has drawn, in whatever colours on black. -/
def Drawn (font : List Byte) (console : Console) (fb : List Byte) : Prop :=
  ∀ (r : Fin rows) (c : Fin cols) (x y : Nat), x < 8 → y < 16 →
    lit fb (c * 8 + x) (r * 16 + y) = dot font (console r c) x y

/-- The screen shows the console: it is drawn on the half that has more ink. -/
structure Shows (mapped : Mapping) (ram : FlatMemory) (font : List Byte) (console : Console) : Prop where
  glyphs : ucMemRead mapped ram fontPa 4096 = some font
  screen : ∃ first second : List Byte, first.length = halfBytes ∧ second.length = halfBytes ∧
    ucMemRead mapped ram fbPa (halfBytes * 2) = some (first ++ second) ∧
      (Drawn font console first ∧ ink second ≤ ink first ∨
        Drawn font console second ∧ ink first < ink second)

def blankGlyph (font : List Byte) (g : Byte) : Bool := (glyph font g.toNat).all (· = 0)

/-- What a character is read back as. -/
def seen (font : List Byte) (g : Byte) : Byte :=
  if blankGlyph font g then 32
  else ((matching font (glyph font g.toNat)).map shownAs).getD 32

theorem getLsbD_rowBits (lit : Nat → Bool) {x : Nat} (inside : x < 8) :
    (rowBits true lit).getLsbD (7 - x) = lit x := by
  have each : ∀ a b c d e f g h : Bool,
      let bits := rowBits true fun i => [a, b, c, d, e, f, g, h].getD i false
      bits.getLsbD 7 = a ∧ bits.getLsbD 6 = b ∧ bits.getLsbD 5 = c ∧ bits.getLsbD 4 = d ∧
        bits.getLsbD 3 = e ∧ bits.getLsbD 2 = f ∧ bits.getLsbD 1 = g ∧ bits.getLsbD 0 = h := by
    decide +kernel
  have own : rowBits true lit = rowBits true fun i =>
      [lit 0, lit 1, lit 2, lit 3, lit 4, lit 5, lit 6, lit 7].getD i false := rfl
  obtain ⟨b7, b6, b5, b4, b3, b2, b1, b0⟩ :=
    each (lit 0) (lit 1) (lit 2) (lit 3) (lit 4) (lit 5) (lit 6) (lit 7)
  rw [own]
  interval_cases x
  · exact b7
  · exact b6
  · exact b5
  · exact b4
  · exact b3
  · exact b2
  · exact b1
  · exact b0

theorem rowBits_eq {lit : Nat → Bool} {byte : Byte} (same : ∀ x, x < 8 → lit x = byte.getLsbD (7 - x)) :
    rowBits true lit = byte := by
  apply BitVec.eq_of_getLsbD_eq
  intro i below
  have mirrored : 7 - (7 - i) = i := by omega
  have bit := getLsbD_rowBits lit (show 7 - i < 8 by omega)
  rw [mirrored] at bit
  rw [bit, same (7 - i) (by omega), mirrored]

theorem byte_eq_zero_iff (byte : Byte) : byte = 0 ↔ ∀ x, x < 8 → byte.getLsbD (7 - x) = false := by
  constructor
  · rintro rfl x _
    simp
  · intro dark
    apply BitVec.eq_of_getLsbD_eq
    intro i below
    have bit := dark (7 - i) (by omega)
    rw [show 7 - (7 - i) = i by omega] at bit
    simpa using bit

variable {font fb pat : List Byte} {console : Console}

theorem length_glyph (sized : font.length = 4096) {g : Nat} (below : g < 256) :
    (glyph font g).length = 16 := by
  rw [glyph, List.length_take, List.length_drop]
  omega

theorem glyph_eq_map (sized : font.length = 4096) {g : Nat} (below : g < 256) :
    glyph font g = (List.range 16).map fun y => font.getD (g * 16 + y) 0 := by
  apply List.ext_getElem
  · simp [length_glyph sized below]
  · intro y first _
    have inside : y < 16 := by simpa [length_glyph sized below] using first
    have place : g * 16 + y < font.length := by omega
    simp [glyph, place]

theorem pattern_drawn (sized : font.length = 4096) (drawn : Drawn font console fb) (r : Fin rows)
    (c : Fin cols) :
    pattern true fb r c = glyph font (console r c).toNat := by
  rw [glyph_eq_map sized (console r c).isLt, pattern]
  refine List.map_congr_left fun y member => ?_
  exact rowBits_eq fun x below => drawn r c x y below (List.mem_range.mp member)

theorem blankCell_drawn (sized : font.length = 4096) (drawn : Drawn font console fb) (r : Fin rows)
    (c : Fin cols) :
    blankCell fb r c = blankGlyph font (console r c) := by
  rw [Bool.eq_iff_iff, blankCell, blankGlyph, glyph_eq_map sized (console r c).isLt, List.all_map]
  simp only [List.all_eq_true, List.mem_range, Function.comp_apply, decide_eq_true_eq, byte_eq_zero_iff,
    Bool.not_eq_true']
  constructor
  · intro dark y below x inside
    rw [← dark y below x inside]
    exact (drawn r c x y inside below).symm
  · intro dark y below x inside
    rw [drawn r c x y inside below]
    exact dark y below x inside

theorem matching_glyph (font : List Byte) {g : Nat} (below : g < 256) : (matching font (glyph font g)).isSome = true := by
  rw [matching, List.find?_isSome]
  exact ⟨g, List.mem_range.mpr below, decide_eq_true rfl⟩

/-- A cell that is drawn is read, unless it is blank. -/
theorem cellText_drawn (sized : font.length = 4096) (drawn : Drawn font console fb) (r : Fin rows)
    (c : Fin cols) :
    (cellText true fb font r c).getD 32 = seen font (console r c) ∧
      (cellText true fb font r c).isSome = !blankCell fb r c := by
  have found := matching_glyph font (console r c).isLt
  rw [cellText, pattern_drawn sized drawn, seen, ← blankCell_drawn sized drawn]
  cases blankCell fb r c with
  | true => exact ⟨rfl, rfl⟩
  | false => exact ⟨rfl, by simpa using found⟩

theorem cellText_blank {msbLeft : Bool} {r c : Nat} (read : (cellText msbLeft fb font r c).isSome = true) :
    blankCell fb r c = false := by
  rw [cellText] at read
  split at read
  · cases read
  · rename_i inked
    simpa using inked

/-- Where one reading finds no more than another, it counts no more. -/
theorem counted_le {few many : Nat → Nat → Option Byte}
    (each : ∀ r c, (few r c).isSome = true → (many r c).isSome = true) (rows cols : Nat) :
    let cells (read : Nat → Nat → Option Byte) :=
      (List.range rows).map fun r => (List.range cols).map fun c => read r c
    ((cells few).flatten.filter Option.isSome).length ≤
      ((cells many).flatten.filter Option.isSome).length := by
  intro cells
  rw [← List.countP_eq_length_filter, ← List.countP_eq_length_filter, List.countP_flatten,
    List.countP_flatten, List.map_map, List.map_map]
  refine List.sum_le_sum fun r _ => ?_
  simp only [Function.comp_apply, List.countP_map]
  exact List.countP_mono_left fun c _ => each r c

/-- On a half that is drawn, the kernel's own order of bits matches most. -/
theorem decode_matched_le (sized : font.length = 4096) (drawn : Drawn font console fb) :
    (decode false fb font).2 ≤ (decode true fb font).2 := by
  have counted : ∀ msbLeft, (decode msbLeft fb font).2 =
      (((List.range rows).map fun r => (List.range cols).map fun c =>
        if r < rows ∧ c < cols then cellText msbLeft fb font r c else none).flatten.filter
          Option.isSome).length := by
    intro msbLeft
    rw [decode]
    refine congrArg (fun cells : List (List (Option Byte)) => (cells.flatten.filter Option.isSome).length) ?_
    refine List.map_congr_left fun r row => List.map_congr_left fun c column => ?_
    rw [if_pos ⟨List.mem_range.mp row, List.mem_range.mp column⟩]
  rw [counted, counted]
  refine counted_le (fun r c read => ?_) rows cols
  split at read
  · rename_i inside
    rw [if_pos inside]
    have inked := cellText_blank read
    have drawnHere := (cellText_drawn sized drawn ⟨r, inside.1⟩ ⟨c, inside.2⟩).2
    rw [drawnHere, inked]
    rfl
  · cases read

/-- The lines of a console. -/
def linesOf (console : Console) : List (List Byte) := List.ofFn fun r => List.ofFn (console r)

theorem decode_drawn (sized : font.length = 4096) (drawn : Drawn font console fb) :
    (decode true fb font).1 = linesOf fun r c => seen font (console r c) := by
  rw [decode, linesOf]
  apply List.ext_getElem
  · simp
  intro r first second
  apply List.ext_getElem
  · simp
  intro c left right
  have row : r < rows := by simpa using second
  have column : c < cols := by simpa using right
  simpa using (cellText_drawn sized drawn ⟨r, row⟩ ⟨c, column⟩).1

variable {mapped : Mapping} {ram : FlatMemory}

theorem fbDecodeText_shows (shows : Shows mapped ram font console) :
    fbDecodeText mapped ram = some (linesOf fun r c => seen font (console r c)) := by
  have sized : font.length = 4096 := by
    have read := shows.glyphs
    rw [ucMemRead] at read
    split at read
    · rw [← Option.some.inj read, List.length_map, FlatMemory.length_cells]
    · cases read
  obtain ⟨first, second, long, other, read, shown⟩ := shows.screen
  have front : (first ++ second).take halfBytes = first := by rw [← long, List.take_left]
  have back : (first ++ second).drop halfBytes = second := by rw [← long, List.drop_left]
  rw [fbDecodeText, read, Option.bind_some, front, back, shows.glyphs, Option.map_some]
  have answer {fb : List Byte} (drawn : Drawn font console fb) :
      (if (decode false fb font).2 > (decode true fb font).2 then (decode false fb font).1
        else (decode true fb font).1) = linesOf fun r c => seen font (console r c) := by
    rw [if_neg (not_lt.mpr (decode_matched_le sized drawn)), decode_drawn sized drawn]
  rcases shown with ⟨drawn, more⟩ | ⟨drawn, more⟩
  · rw [if_neg (not_lt.mpr more)]
    simp only [Nat.zero_mul, List.drop_zero, front, answer drawn]
  · rw [if_pos more]
    simp only [Nat.one_mul, back, List.take_of_length_le (le_of_eq other), answer drawn]

/-- A printable character that no earlier glyph looks like, a blank one that is the space, or a point
that looks like a character that is not printed. -/
def Legible (font : List Byte) (g : Byte) : Prop :=
  if blankGlyph font g then g = 32
  else
    (32 ≤ g.toNat ∧ g.toNat < 127 ∧
        ∀ other, other < g.toNat → glyph font other ≠ glyph font g.toNat) ∨
      (g = 46 ∧ ∃ other, other < 32 ∧ glyph font other = glyph font g.toNat)

/-- The first glyph that looks like a character. -/
theorem matching_first (font : List Byte) (g : Byte) : ∃ first, first ≤ g.toNat ∧
    matching font (glyph font g.toNat) = some first ∧ glyph font first = glyph font g.toNat ∧
      ∀ other, other < first → glyph font other ≠ glyph font g.toNat := by
  obtain ⟨first, found⟩ := Option.isSome_iff_exists.mp (matching_glyph font g.isLt)
  rw [matching, List.find?_range_eq_some] at found
  obtain ⟨same, below, earlier⟩ := found
  have unlike : ∀ other, other < first → glyph font other ≠ glyph font g.toNat := by
    intro other before
    have different := earlier other before
    simp only [Bool.not_eq_true', decide_eq_false_iff_not] at different
    exact Ne.symm different
  refine ⟨first, ?_, ?_, (of_decide_eq_true same).symm, unlike⟩
  · by_contra later
    exact unlike g.toNat (by omega) rfl
  · rw [matching, List.find?_range_eq_some]
    exact ⟨same, below, earlier⟩

theorem seen_eq_iff (font : List Byte) (g : Byte) : seen font g = g ↔ Legible font g := by
  obtain ⟨first, before, found, alike, unlike⟩ := matching_first font g
  rw [seen, Legible]
  split
  · exact eq_comm
  · rw [found, Option.map_some, Option.getD_some, shownAs]
    constructor
    · intro same
      split at same
      · rename_i printed
        have own : first = g.toNat := by
          rw [← same, BitVec.toNat_ofNat]
          omega
        exact .inl ⟨own ▸ printed.1, own ▸ printed.2, own ▸ unlike⟩
      · rename_i hidden
        refine .inr ⟨same.symm, first, ?_, alike⟩
        have point : g.toNat = 46 := by rw [← same]; rfl
        omega
    · rintro (⟨low, high, earlier⟩ | ⟨rfl, other, hidden, same⟩)
      · have own : first = g.toNat := by
          by_contra different
          exact earlier first (by omega) alike
        rw [own, if_pos ⟨low, high⟩, BitVec.ofNat_toNat, BitVec.setWidth_eq]
      · have notLater : first ≤ other := by
          by_contra later
          exact unlike other (by omega) same
        rw [if_neg (by omega)]

/-- What the console has drawn is read back, each character as the first glyph that looks like it; it
is the text itself where every character is legible. -/
theorem screen_read_back (shows : Shows mapped ram font console) :
    fbDecodeText mapped ram = some (linesOf fun r c => seen font (console r c)) ∧
      (fbDecodeText mapped ram = some (linesOf console) ↔ ∀ r c, Legible font (console r c)) := by
  refine ⟨fbDecodeText_shows shows, ?_⟩
  rw [fbDecodeText_shows shows, Option.some_inj, linesOf, linesOf, List.ofFn_inj]
  constructor
  · intro same r c
    have lines := List.ofFn_inj.mp (congrFun same r)
    exact (seen_eq_iff font _).mp (congrFun lines c)
  · intro legible
    funext r
    exact congrArg List.ofFn (funext fun c => (seen_eq_iff font _).mpr (legible r c))

/-- The glyph of the letter, and the first half of the frame buffer. -/
def letters : FlatMemory := fun address =>
  if (address - (fontPa + 65 * 16)).toNat < 16 ∨ (address - fbPa).toNat < halfBytes then 0xff else 0

def letterFont : List Byte := (FlatMemory.cells fontPa 4096).map letters

theorem ucMemRead_letters {addr : Word} {count : Nat} (low : addr.toNat + count ≤ 2 ^ 32) :
    ucMemRead (fun _ => true) letters addr count = some ((FlatMemory.cells addr count).map letters) := by
  refine if_pos ?_
  rw [Mapping.backed, Bool.and_eq_true, List.all_eq_true]
  exact ⟨decide_eq_true low, fun _ _ => rfl⟩

theorem getD_cells (ram : FlatMemory) {addr : Word} {count index : Nat} (below : index < count) :
    ((FlatMemory.cells addr count).map ram).getD index 0 = ram (addr + BitVec.ofNat 32 index) := by
  simp [FlatMemory.cells, below]

theorem cells_add (addr : Word) (first second : Nat) : FlatMemory.cells addr (first + second) =
    FlatMemory.cells addr first ++ FlatMemory.cells (addr + BitVec.ofNat 32 first) second := by
  rw [FlatMemory.cells, List.range_add, List.map_append, List.map_map]
  refine congrArg _ (List.map_congr_left fun offset _ => ?_)
  simp [BitVec.ofNat_add, BitVec.add_assoc]

theorem shows_letters : Shows (fun _ => true) letters letterFont fun _ _ => 65 := by
  refine ⟨ucMemRead_letters (by decide), (FlatMemory.cells fbPa halfBytes).map letters,
    (FlatMemory.cells (fbPa + BitVec.ofNat 32 halfBytes) halfBytes).map letters, by simp, by simp, ?_,
    .inl ⟨?_, ?_⟩⟩
  · rw [ucMemRead_letters (by decide), Nat.mul_two, cells_add, List.map_append]
  · intro r c x y right down
    have place : ((r * 16 + y) * fbXres + (c * 8 + x)) * 2 + 1 < halfBytes := by
      have row := r.isLt
      have column := c.isLt
      simp only [rows, cols, fbXres, fbYres, halfBytes] at row column ⊢
      omega
    have bytes : ∀ off, off < halfBytes →
        ((FlatMemory.cells fbPa halfBytes).map letters).getD off 0 = 0xff := by
      intro off below
      have small : off < 691200 := below
      rw [getD_cells _ below]
      have moved : (fbPa + BitVec.ofNat 32 off - fbPa).toNat = off := by bv_omega
      refine if_pos (.inr ?_)
      rwa [moved]
    have inked : letterFont.getD ((65 : Byte).toNat * 16 + y) 0 = 0xff := by
      change letterFont.getD (1040 + y) 0 = 0xff
      rw [letterFont, getD_cells _ (by omega)]
      refine if_pos (.inl ?_)
      interval_cases y <;> decide
    rw [lit, pixel, bytes _ place, bytes _ (Nat.lt_of_succ_lt place), dot, inked]
    interval_cases x <;> rfl
  · have dark : ink ((FlatMemory.cells (fbPa + BitVec.ofNat 32 halfBytes) halfBytes).map letters) = 0 := by
      rw [ink, List.length_eq_zero_iff, List.filter_eq_nil_iff]
      intro i member
      have below := List.mem_range.mp member
      have outside : ∀ off, off < halfBytes →
          letters (fbPa + BitVec.ofNat 32 halfBytes + BitVec.ofNat 32 off) = 0 := by
        intro off small
        refine if_neg fun inside => ?_
        simp only [fontPa, fbPa, halfBytes, fbXres, fbYres] at inside small
        rcases inside with glyph | buffer
        · bv_omega
        · bv_omega
      have last : 2 * i + 1 < halfBytes := by
        rw [Nat.lt_div_iff_mul_lt (by omega)] at below
        omega
      have first : 2 * i < halfBytes := Nat.lt_of_succ_lt last
      rw [getD_cells _ first, getD_cells _ last, outside _ first, outside _ last]
      simp
    rw [dark]
    exact Nat.zero_le _

theorem screen_read_back_letters :
    fbDecodeText (fun _ => true) letters = some (linesOf fun _ _ => seen letterFont 65) ∧
      (fbDecodeText (fun _ => true) letters = some (linesOf fun _ _ => 65) ↔
        ∀ (_ : Fin rows) (_ : Fin cols), Legible letterFont 65) :=
  screen_read_back shows_letters

end ZeeboLle.Linux.FbText
