import ZeeboLle.Control.Channel
import ZeeboLle.Json.Flat

/-! How the control server reads a request: `ParseLine` looks for each quoted key by its text,
wherever it occurs first, and takes what follows the next colon. -/
namespace ZeeboLle.Control

open Unicorn Streams Json

/-- `ControlRequest`, without the promise of its reply. -/
structure ControlRequest where
  cmd : List Byte
  button : List Byte
  strPath : List Byte
  strHex : List Byte
  strMode : List Byte
  strAction : List Byte
  strProbe : List Byte
  core : BitVec 64
  i0 : BitVec 64
  i1 : BitVec 64
  i2 : BitVec 64
  val : BitVec 64
  hasCore : Bool
  hasI0 : Bool
  hasI1 : Bool
  hasI2 : Bool
  hasVal : Bool
deriving DecidableEq

def plus : Byte := 43
def minus : Byte := 45
def zero : Byte := 48

def hexMark (byte : Byte) : Bool := byte = 120 ∨ byte = 88

def isspace (byte : Byte) : Bool := byte = 32 ∨ 9 ≤ byte.toNat ∧ byte.toNat ≤ 13

def digitIn (base : Nat) (byte : Byte) : Option Nat := (hexDigit byte).filter (· < base)

/-- `0x` before a hexadecimal digit. -/
def hasHexPrefix (text : List Byte) : Bool :=
  text[0]? = some zero ∧ text[1]?.any hexMark ∧ (text[2]?.bind (digitIn 16)).isSome

/-- `strtoull` in base 10 or 16, and nothing where it converts nothing. Out of range it gives
the largest number. -/
def strtoull (text : List Byte) (base : Nat) : Option (BitVec 64) :=
  let text := text.dropWhile isspace
  let negative := text.head? = some minus
  let text := if text.head? = some minus ∨ text.head? = some plus then text.tail else text
  let text := if base = 16 ∧ hasHexPrefix text then text.drop 2 else text
  let digits := text.takeWhile fun byte => (digitIn base byte).isSome
  let magnitude := digits.foldl (fun value byte => value * base + (digitIn base byte).getD 0) 0
  if digits = [] then none
  else if 2 ^ 64 ≤ magnitude then some (BitVec.allOnes 64)
  else if negative then some (-BitVec.ofNat 64 magnitude)
  else some (BitVec.ofNat 64 magnitude)

/-- Blanks and quotation marks in front of a number. -/
def skipped (byte : Byte) : Bool := byte = 32 ∨ byte = 9 ∨ byte = 34

/-- What `ExtractInt` makes of the text behind the colon. -/
def readInt (text : List Byte) : Option (BitVec 64) :=
  match text.dropWhile skipped with
  | [] => none
  | first :: rest =>
    if first = minus ∨ first = plus then none
    else strtoull (first :: rest) (if first = zero ∧ rest.head?.any hexMark then 16 else 10)

def extractInt (text key : List Byte) : Option (BitVec 64) :=
  let pattern := ascii "\"" ++ key ++ ascii "\""
  (find text pattern 0).bind fun k =>
    (find text (ascii ":") (k + pattern.length)).bind fun c => readInt (text.drop (c + 1))

def parseLine (s : List Byte) : Option ControlRequest :=
  let cmd := extractString s (ascii "cmd")
  if cmd = [] then none
  else
    let c := extractInt s (ascii "core")
    let v := ["ticks", "n", "addr", "port"].findSome? fun k => extractInt s (ascii k)
    let len := extractInt s (ascii "len")
    let value := (extractInt s (ascii "value")).or (extractInt s (ascii "val"))
    let hi := extractInt s (ascii "hi")
    some {
      cmd
      button := extractString s (ascii "button")
      strPath := extractString s (ascii "path")
      strHex := extractString s (ascii "hex")
      strMode := extractString s (ascii "mode")
      strAction := extractString s (ascii "action")
      strProbe := extractString s (ascii "probe")
      core := c.getD 0
      i0 := v.getD 0
      i1 := len.getD 0
      i2 := hi.getD 0
      val := value.getD 0
      hasCore := c.isSome
      hasI0 := v.isSome
      hasI1 := len.isSome
      hasI2 := hi.isSome
      hasVal := value.isSome }

variable {text key pattern front gap tail : List Byte} {mark : Byte} {position : Nat}

theorem occurs_iff : ((text.drop position).take pattern.length == pattern) = true ↔
    pattern <+: text.drop position := by
  rw [beq_iff_eq, List.prefix_iff_eq_take, eq_comm]

theorem drop_into (split : text = front ++ (gap ++ tail)) (start : position = front.length)
    {offset : Nat} (within : offset ≤ gap.length) :
    text.drop (position + offset) = gap.drop offset ++ tail := by
  rw [split, start, ← List.drop_drop, List.drop_left, List.drop_append_of_le_length within]

/-- A search goes through what is quiet and stops at the pattern. -/
theorem find_at (split : text = front ++ (gap ++ (pattern ++ tail)))
    (start : position = front.length) (quiet : Quiet pattern gap (pattern ++ tail)) :
    find text pattern position = some (position + gap.length) := by
  rw [find, List.find?_range'_eq_some]
  refine ⟨?_, ?_, ?_⟩
  · rw [occurs_iff, drop_into split start le_rfl, List.drop_length]
    exact List.prefix_append pattern tail
  · rw [List.mem_range'_1, split, start]
    simp only [List.length_append]
    omega
  · intro earlier since before
    obtain ⟨offset, rfl⟩ := Nat.exists_eq_add_of_le since
    have within : offset < gap.length := by omega
    rw [Bool.not_eq_true', ← Bool.not_eq_true, occurs_iff, drop_into split start within.le]
    exact quiet _ _ (List.take_append_drop offset gap).symm (by simpa using within)

theorem find_none (split : text = front ++ gap) (start : position = front.length)
    (filled : pattern ≠ []) (quiet : Quiet pattern gap []) : find text pattern position = none := by
  rw [find, List.find?_eq_none]
  intro place member
  rw [List.mem_range'_1, split, List.length_append, start] at member
  obtain ⟨offset, rfl⟩ := Nat.exists_eq_add_of_le member.1
  have within : offset ≤ gap.length := by omega
  have split : text = front ++ (gap ++ []) := by rw [List.append_nil, split]
  rw [occurs_iff, ← start, drop_into split start within]
  by_cases last : gap.drop offset = []
  · rw [last, List.append_nil, List.prefix_nil]
    exact filled
  · exact quiet _ _ (List.take_append_drop offset gap).symm last

theorem quoted_eq : ascii "\"" ++ key ++ ascii "\"" = quoted key := by
  have mark : ascii "\"" = [quote] := by decide
  rw [mark, quoted, List.append_assoc, List.singleton_append]

theorem find_mark (split : text = front ++ (gap ++ mark :: tail)) (start : position = front.length)
    (plain : mark ∉ gap) : find text [mark] position = some (position + gap.length) :=
  find_at split start (.of_not_mem plain)

theorem find_no_mark (split : text = front ++ gap) (start : position = front.length)
    (plain : mark ∉ gap) : find text [mark] position = none :=
  find_none split start (List.cons_ne_nil _ _) (.of_not_mem plain)

/-- Where the search for a key and then for a colon ends. -/
structure Found (text key tail : List Byte) (k c : Nat) : Prop where
  pattern : find text (ascii "\"" ++ key ++ ascii "\"") 0 = some k
  colon : find text (ascii ":") (k + (ascii "\"" ++ key ++ ascii "\"").length) = some c
  behind : ∃ front, text = front ++ tail ∧ c + 1 = front.length

theorem found (split : text = front ++ (quoted key ++ (gap ++ colon :: tail)))
    (quiet : ∀ tail, Quiet (quoted key) front tail) (plain : colon ∉ gap) :
    ∃ k c, Found text key tail k c := by
  have mark : ascii ":" = [colon] := by decide
  have whole : text = (front ++ quoted key) ++ (gap ++ colon :: tail) := by
    rw [List.append_assoc, split]
  refine ⟨front.length, front.length + (quoted key).length + gap.length, ?_, ?_, ?_⟩
  · have whole : text = [] ++ (front ++ (quoted key ++ (gap ++ colon :: tail))) := split
    rw [quoted_eq, ← Nat.zero_add front.length]
    exact find_at whole rfl (quiet _)
  · rw [quoted_eq, mark]
    exact find_mark whole (by rw [List.length_append]) plain
  · refine ⟨front ++ quoted key ++ (gap ++ [colon]), by simp [whole], ?_⟩
    simp only [List.length_append, List.length_singleton]
    omega

variable {k c : Nat} {space content : List Byte}

theorem Found.number (found : Found text key tail k c) : extractInt text key = readInt tail := by
  obtain ⟨front, split, place⟩ := found.behind
  simp only [extractInt, found.pattern, found.colon, Option.bind_some]
  rw [place, split, List.drop_left]

/-- The text between the next two quotation marks. -/
theorem Found.string (found : Found text key (space ++ quote :: (content ++ quote :: tail)) k c)
    (unquoted : quote ∉ space) (plain : quote ∉ content) : extractString text key = content := by
  have mark : ascii "\"" = [quote] := by decide
  obtain ⟨front, split, place⟩ := found.behind
  have opens := find_mark split place unquoted
  have rest : text = (front ++ (space ++ [quote])) ++ (content ++ quote :: tail) := by
    simp [split]
  have start : c + 1 + space.length + 1 = (front ++ (space ++ [quote])).length := by
    simp only [List.length_append, List.length_singleton]
    omega
  have closes := find_mark rest start plain
  simp only [extractString, found.pattern, found.colon, Option.bind_some]
  simp only [mark, opens, closes, Option.bind_some, Option.map_some, Option.getD_some]
  rw [start, rest, List.drop_left, ← start]
  have size : c + 1 + space.length + 1 + content.length - (c + 1 + space.length) - 1 =
      content.length := by omega
  rw [size, List.take_left]

/-- No quotation mark is left behind the colon. -/
theorem Found.unclosed (found : Found text key tail k c) (unquoted : quote ∉ tail) :
    extractString text key = [] := by
  have mark : ascii "\"" = [quote] := by decide
  obtain ⟨front, split, place⟩ := found.behind
  simp only [extractString, found.pattern, found.colon, Option.bind_some]
  rw [mark, find_no_mark split place unquoted]
  rfl

/-- Nothing is read where no colon stands behind a mention of the key. -/
theorem unread (split : text = front ++ tail) (quiet : Quiet (quoted key) front tail)
    (plain : ∀ rest, rest <:+ tail → quoted key <+: rest → colon ∉ rest) :
    extractString text key = [] ∧ extractInt text key = none := by
  have mark : ascii ":" = [colon] := by decide
  have nowhere : ∀ k, find text (quoted key) 0 = some k →
      find text [colon] (k + (quoted key).length) = none := by
    intro k sought
    rw [find] at sought
    have hit := List.find?_some sought
    have starts : quoted key <+: text.drop k := occurs_iff.mp hit
    have behind : front.length ≤ k := by
      by_contra before
      have some : front.drop k ≠ [] := by
        rw [Ne, List.drop_eq_nil_iff]
        exact before
      refine quiet _ _ (List.take_append_drop k front).symm some ?_
      rwa [split, List.drop_append_of_le_length (by omega)] at starts
    have rest : text.drop k <:+ tail := by
      rw [split, List.drop_append, List.drop_eq_nil_of_le behind, List.nil_append]
      exact List.drop_suffix _ _
    have inside := starts.length_le
    have filled : 0 < (quoted key).length := List.length_pos_of_ne_nil (List.cons_ne_nil _ _)
    rw [List.length_drop] at inside
    refine find_no_mark (List.take_append_drop (k + (quoted key).length) text).symm ?_ fun member => ?_
    · rw [List.length_take]
      omega
    · rw [← List.drop_drop] at member
      exact plain _ rest starts (List.mem_of_mem_drop member)
  simp only [extractString, extractInt, quoted_eq, mark]
  cases sought : find text (quoted key) 0 with
  | none => exact ⟨rfl, rfl⟩
  | some k =>
    rw [Option.bind_some, Option.bind_some, nowhere k sought]
    exact ⟨rfl, rfl⟩

/-- A key that does not occur. -/
theorem absent (quiet : Quiet (quoted key) text []) :
    extractString text key = [] ∧ extractInt text key = none := by
  refine unread (List.append_nil text).symm quiet fun rest suffix starts => ?_
  rw [List.suffix_nil.mp suffix, List.prefix_nil] at starts
  exact absurd starts (List.cons_ne_nil _ _)

/-- The number kept in 64 bits, or the largest of them. -/
def saturated (n : Nat) : BitVec 64 := if 2 ^ 64 ≤ n then BitVec.allOnes 64 else BitVec.ofNat 64 n

theorem saturated_toNat {n : Nat} : (saturated n).toNat = n ↔ n < 2 ^ 64 := by
  unfold saturated
  split
  · next large =>
    rw [BitVec.toNat_allOnes]
    omega
  · next small => exact ⟨fun _ => by omega, fun _ => by rw [BitVec.toNat_ofNat]; omega⟩

theorem dropWhile_append_stop {α : Type*} {test : α → Bool} {first : α} {front rest : List α}
    (stop : test first = false) :
    (front ++ first :: rest).dropWhile test = front.dropWhile test ++ first :: rest := by
  induction front with
  | nil => rw [List.nil_append, List.dropWhile_cons, if_neg (by simp [stop])]; rfl
  | cons head front ih =>
    rw [List.cons_append, List.dropWhile_cons, List.dropWhile_cons, ih]
    split <;> rfl

/-- What does not go on with a number. -/
def Ends (tail : List Byte) : Prop :=
  ∀ byte ∈ tail.head?, hexDigit byte = none ∧ hexMark byte = false

variable {n : Nat} {first : Byte} {rest : List Byte}

/-- A byte of a decimal text is taken for nothing else. -/
theorem decimal_byte (member : mark ∈ decimal n) : (isspace mark = false ∧ skipped mark = false ∧
    mark ≠ minus ∧ mark ≠ plus ∧ hexMark mark = false) ∧
    digitIn 10 mark = hexDigit mark ∧ (hexDigit mark).isSome = true := by
  obtain ⟨digit, small, rfl⟩ := decimal_digit member
  have each : ∀ digit < 10, let byte : Byte := BitVec.ofNat 8 (48 + digit)
      (isspace byte = false ∧ skipped byte = false ∧ byte ≠ minus ∧ byte ≠ plus ∧
        hexMark byte = false) ∧
      digitIn 10 byte = hexDigit byte ∧ (hexDigit byte).isSome = true := by decide
  exact each digit small

theorem dropWhile_spaces (spaces : ∀ byte ∈ front, isspace byte = true)
    (stop : isspace first = false) :
    (front ++ first :: rest).dropWhile isspace = first :: rest := by
  rw [List.dropWhile_append_of_pos spaces, List.dropWhile_cons, stop]
  rfl

/-- Without a sign and in base 10, `strtoull` reads the decimal digits behind the spaces. -/
theorem strtoull_unsigned (spaces : ∀ byte ∈ front, isspace byte = true)
    (stop : isspace first = false) (unsigned : first ≠ minus ∧ first ≠ plus) :
    strtoull (front ++ first :: rest) 10 =
      let digits := (first :: rest).takeWhile fun byte => (digitIn 10 byte).isSome
      if digits = [] then none
      else some (saturated (digits.foldl
        (fun value byte => value * 10 + (digitIn 10 byte).getD 0) 0)) := by
  have base : ¬ (10 = 16) := by decide
  simp only [strtoull, dropWhile_spaces spaces stop, List.head?_cons, Option.some.injEq, unsigned.1,
    unsigned.2, base, or_self, false_and, if_false, saturated, apply_ite some]

theorem strtoull_none (spaces : ∀ byte ∈ front, isspace byte = true) (stop : isspace first = false)
    (unsigned : first ≠ minus ∧ first ≠ plus) (other : digitIn 10 first = none) :
    strtoull (front ++ first :: rest) 10 = none := by
  have unread : (digitIn 10 first).isSome = false := by rw [other]; rfl
  rw [strtoull_unsigned spaces stop unsigned, List.takeWhile_cons, unread]
  rfl

theorem takeWhile_decimal (ends : Ends tail) :
    (decimal n ++ tail).takeWhile (fun byte => (digitIn 10 byte).isSome) = decimal n := by
  rw [List.takeWhile_append_of_pos fun byte member => by
    obtain ⟨-, same, digit⟩ := decimal_byte member
    rw [same, digit]]
  cases tail with
  | nil => rw [List.takeWhile_nil, List.append_nil]
  | cons first rest =>
    have unread : (digitIn 10 first).isSome = false := by
      rw [digitIn, (ends first rfl).1]
      rfl
    rw [List.takeWhile_cons, unread]
    exact List.append_nil _

theorem strtoull_decimal (spaces : ∀ byte ∈ front, isspace byte = true) (ends : Ends tail) :
    strtoull (front ++ (decimal n ++ tail)) 10 = some (saturated n) := by
  have whole := takeWhile_decimal (n := n) ends
  have filled := decimal_ne_nil n
  have value := decimal_value n
  have each : ∀ mark ∈ decimal n, _ := fun mark member => decimal_byte member
  generalize decimal n = digits at whole filled value each ⊢
  obtain ⟨first, rest, rfl⟩ := List.exists_cons_of_ne_nil filled
  obtain ⟨stop, -, notMinus, notPlus, -⟩ := (each first List.mem_cons_self).1
  rw [List.cons_append, strtoull_unsigned spaces stop ⟨notMinus, notPlus⟩, ← List.cons_append, whole]
  have magnitude : (first :: rest).foldl
      (fun value byte => value * 10 + (digitIn 10 byte).getD 0) 0 = n := by
    refine Eq.trans (List.foldl_ext _ _ _ fun value byte member => ?_) value
    rw [(each byte member).2.1]
  simp only [magnitude, List.cons_ne_nil, if_false]

theorem readInt_eq (trimmed : text.dropWhile skipped = first :: rest)
    (unsigned : first ≠ minus ∧ first ≠ plus)
    (decimal : ¬ (first = zero ∧ rest.head?.any hexMark = true)) :
    readInt text = strtoull (first :: rest) 10 := by
  simp only [readInt, trimmed, unsigned.1, unsigned.2, or_self, if_false, if_neg decimal]

theorem space_byte (space : isspace mark = true) : (mark ≠ minus ∧ mark ≠ plus) ∧ mark ≠ zero := by
  refine ⟨⟨?_, ?_⟩, ?_⟩ <;> rintro rfl <;> exact absurd space (by decide)

theorem readInt_decimal (spaces : ∀ byte ∈ front, isspace byte = true) (ends : Ends tail)
    (trimmed : text.dropWhile skipped = front ++ (decimal n ++ tail)) :
    readInt text = some (saturated n) := by
  have read := strtoull_decimal (n := n) spaces ends
  cases front with
  | cons space front =>
    obtain ⟨unsigned, other⟩ := space_byte (spaces space List.mem_cons_self)
    rwa [readInt_eq trimmed unsigned fun both => other both.1]
  | nil =>
    obtain ⟨first, rest, starts⟩ := List.exists_cons_of_ne_nil (decimal_ne_nil n)
    obtain ⟨-, -, notMinus, notPlus, -⟩ := (decimal_byte (starts ▸ List.mem_cons_self)).1
    have next : (rest ++ tail).head?.any hexMark = false := by
      cases rest with
      | nil =>
        cases tail with
        | nil => rfl
        | cons byte tail => exact (ends byte rfl).2
      | cons second rest =>
        have digit : second ∈ decimal n := by simp [starts]
        exact (decimal_byte digit).1.2.2.2.2
    rw [starts] at read
    rw [starts, List.nil_append, List.cons_append] at trimmed
    rw [readInt_eq trimmed ⟨notMinus, notPlus⟩ fun both => by
      rw [next] at both
      exact absurd both.2 (by decide)]
    exact read

/-- Nothing is read where spaces end in what is no digit. -/
theorem readInt_none (spaces : ∀ byte ∈ front, isspace byte = true)
    (stop : isspace first = false) (unsigned : first ≠ minus ∧ first ≠ plus)
    (other : digitIn 10 first = none)
    (trimmed : text.dropWhile skipped = front ++ first :: rest) : readInt text = none := by
  have read : strtoull (front ++ first :: rest) 10 = none :=
    strtoull_none spaces stop unsigned other
  cases front with
  | cons space front =>
    obtain ⟨unsigned, digit⟩ := space_byte (spaces space List.mem_cons_self)
    rwa [readInt_eq trimmed unsigned fun both => digit both.1]
  | nil =>
    have digit : first ≠ zero := by
      rintro rfl
      exact absurd other (by decide)
    rwa [readInt_eq trimmed unsigned fun both => digit both.1]

theorem readInt_sign (trimmed : text.dropWhile skipped = first :: rest)
    (sign : first = minus ∨ first = plus) : readInt text = none := by
  simp only [readInt, trimmed, if_pos sign]

end ZeeboLle.Control
